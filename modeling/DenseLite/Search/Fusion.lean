import DenseLite.Lib.ByteStream
import DenseLite.Lib.Classes
import DenseLite.Lib.Ranking
import Mathlib.Algebra.Order.Field.Rat

/-! # Fusion of search results

`ResultFusion`: results that are duplicates of each other are merged into classes, each class gets a score from its
signals, and the best `top_k` are returned. A class keeps the name and place of the result that began it. Scores are
numbers of any ordered field; the order that `std::sort` gives to equal scores is left open (`Sorter`). -/

namespace DenseLite.Search.Fusion

open DenseLite.Lib.ByteStream DenseLite.Lib.Classes DenseLite.Lib.Ranking

/-- `SearchSource`. -/
inductive SearchSource
  | code | memory | text
deriving DecidableEq, Repr

/-- `SearchResult`. -/
structure SearchResult (K : Type) where
  id : Bytes
  source : SearchSource
  filePath : Bytes
  symbolName : Bytes
  content : Bytes
  lineStart : UInt32
  lineEnd : UInt32
  timestamp : Int64
  semanticSimilarity : K
  lexicalScore : K
  structuralImportance : K
  symbolMatch : K
  recency : K
  taskRelevance : K
  finalScore : K
deriving DecidableEq, Repr

/-- A `SearchResult` with its defaults. -/
def SearchResult.blank {K : Type} [Zero K] : SearchResult K where
  id := []
  source := .code
  filePath := []
  symbolName := []
  content := []
  lineStart := 0
  lineEnd := 0
  timestamp := 0
  semanticSimilarity := 0
  lexicalScore := 0
  structuralImportance := 0
  symbolMatch := 0
  recency := 0
  taskRelevance := 0
  finalScore := 0

/-- `FusionWeights`. -/
structure FusionWeights (K : Type) where
  w1Semantic : K
  w2Lexical : K
  w3Structural : K
  w4Symbol : K
  w5Recency : K
  w6Task : K

/-- A literal of the source with two decimals. -/
def hundredths {K : Type} [Field K] (n : ℕ) : K := (n : K) / ((100 : ℕ) : K)

/-- The default weights. -/
def FusionWeights.default {K : Type} [Field K] : FusionWeights K :=
  ⟨hundredths 25, hundredths 25, hundredths 15, hundredths 20, hundredths 5, hundredths 10⟩

section Code

variable {K : Type}

/-- `ResultFusion::compute_score`. -/
def computeScore [Field K] (res : SearchResult K) (w : FusionWeights K) : K :=
  w.w1Semantic * res.semanticSimilarity + w.w2Lexical * res.lexicalScore + w.w3Structural * res.structuralImportance +
    w.w4Symbol * res.symbolMatch + w.w5Recency * res.recency + w.w6Task * res.taskRelevance

/-- `ResultFusion::is_duplicate`. -/
def isDuplicate (a b : SearchResult K) : Bool :=
  if a.id ≠ [] ∧ a.id = b.id then true
  else if a.source = b.source ∧ a.filePath ≠ [] ∧ a.filePath = b.filePath then
    a.lineStart ≤ b.lineEnd && b.lineStart ≤ a.lineEnd
  else false

variable [LinearOrder K]

/-- `ResultFusion::merge_results`. -/
def mergeResults (a b : SearchResult K) : SearchResult K :=
  { a with
    content := if a.content.length < b.content.length then b.content else a.content
    semanticSimilarity := max a.semanticSimilarity b.semanticSimilarity
    lexicalScore := max a.lexicalScore b.lexicalScore
    structuralImportance := max a.structuralImportance b.structuralImportance
    symbolMatch := max a.symbolMatch b.symbolMatch
    recency := max a.recency b.recency
    taskRelevance := max a.taskRelevance b.taskRelevance
    timestamp := if a.timestamp < b.timestamp then b.timestamp else a.timestamp }

/-- `std::sort` by descending score. -/
structure Sorter (K : Type) [LinearOrder K] where
  run : List (SearchResult K) → List (SearchResult K)
  ranked : ∀ results, Ranked (·.finalScore) results (run results)

/-- A merge sort. -/
def mergeSorter (K : Type) [LinearOrder K] : Sorter K where
  run results := results.mergeSort fun x y => y.finalScore ≤ x.finalScore
  ranked := ranked_mergeSort _

/-- The classes that `fuse` forms. -/
def deduplicate (results : List (SearchResult K)) : List (SearchResult K) := collect isDuplicate mergeResults results

variable [Field K]

/-- The classes with their scores. -/
def scored (weights : FusionWeights K) (classes : List (SearchResult K)) : List (SearchResult K) :=
  classes.map fun item => { item with finalScore := computeScore item weights }

/-- `ResultFusion::fuse`. -/
def fuse (sorter : Sorter K) (multiSignalResults : List (SearchResult K)) (topK : ℕ) (weights : FusionWeights K) :
    List (SearchResult K) :=
  if multiSignalResults = [] then []
  else (sorter.run (scored weights (deduplicate multiSignalResults))).take topK

end Code

/-! ### Names and signals -/

/-- What a class keeps of the result that began it. -/
structure Identity where
  id : Bytes
  source : SearchSource
  filePath : Bytes
  symbolName : Bytes
  lineStart : UInt32
  lineEnd : UInt32
deriving DecidableEq

def identity {K : Type} (r : SearchResult K) : Identity :=
  ⟨r.id, r.source, r.filePath, r.symbolName, r.lineStart, r.lineEnd⟩

/-- `is_duplicate`, on what it looks at. -/
def sameIdentity (a b : Identity) : Bool :=
  if a.id ≠ [] ∧ a.id = b.id then true
  else if a.source = b.source ∧ a.filePath ≠ [] ∧ a.filePath = b.filePath then
    a.lineStart ≤ b.lineEnd && b.lineStart ≤ a.lineEnd
  else false

/-- Each of the six signals is no less. -/
structure Dominates {K : Type} [LE K] (c x : SearchResult K) : Prop where
  semanticSimilarity : x.semanticSimilarity ≤ c.semanticSimilarity
  lexicalScore : x.lexicalScore ≤ c.lexicalScore
  structuralImportance : x.structuralImportance ≤ c.structuralImportance
  symbolMatch : x.symbolMatch ≤ c.symbolMatch
  recency : x.recency ≤ c.recency
  taskRelevance : x.taskRelevance ≤ c.taskRelevance

/-- What fusion promises, where `rep c x` says when the class `c` stands for the input `x`. -/
structure FusionContract {K : Type} [Field K] [LinearOrder K] (rep : SearchResult K → SearchResult K → Prop)
    (inputs : List (SearchResult K)) (topK : ℕ) (weights : FusionWeights K) (results : List (SearchResult K)) :
    Prop where
  distinct : results.Pairwise fun x y => isDuplicate x y = false
  best : Top (·.finalScore) topK (scored weights (deduplicate inputs)) results
  score : ∀ r ∈ results, r.finalScore = computeScore r weights
  covered : ∀ x ∈ inputs, ∃ c ∈ deduplicate inputs, rep c x ∧ Dominates c x

section Lemmas

theorem sameIdentity_comm (a b : Identity) : sameIdentity a b = sameIdentity b a := by
  have hid : a.id ≠ [] ∧ a.id = b.id ↔ b.id ≠ [] ∧ b.id = a.id := by
    constructor
    · exact fun ⟨hne, heq⟩ => ⟨heq ▸ hne, heq.symm⟩
    · exact fun ⟨hne, heq⟩ => ⟨heq ▸ hne, heq.symm⟩
  have hpath : a.source = b.source ∧ a.filePath ≠ [] ∧ a.filePath = b.filePath ↔
      b.source = a.source ∧ b.filePath ≠ [] ∧ b.filePath = a.filePath := by
    constructor
    · exact fun ⟨hsource, hne, heq⟩ => ⟨hsource.symm, heq ▸ hne, heq.symm⟩
    · exact fun ⟨hsource, hne, heq⟩ => ⟨hsource.symm, heq ▸ hne, heq.symm⟩
  unfold sameIdentity
  simp only [hid, hpath, Bool.and_comm]

theorem isDuplicate_comm {K : Type} (a b : SearchResult K) : isDuplicate a b = isDuplicate b a :=
  sameIdentity_comm (identity a) (identity b)

theorem mem_scored {K : Type} [Field K] {weights : FusionWeights K} {classes : List (SearchResult K)}
    {r : SearchResult K} (h : r ∈ scored weights classes) :
    r.finalScore = computeScore r weights ∧ ∃ c ∈ classes, identity r = identity c := by
  obtain ⟨c, hc, rfl⟩ := List.mem_map.mp h
  exact ⟨rfl, c, hc, rfl⟩

variable {K : Type} [LinearOrder K]

theorem byName : ByName isDuplicate mergeResults (identity (K := K)) sameIdentity := ⟨fun _ _ => rfl, fun _ _ => rfl⟩

/-- A merge is no less in any signal than what it is made of. -/
theorem dominates_merge_left (a b : SearchResult K) : Dominates (mergeResults a b) a :=
  ⟨le_max_left _ _, le_max_left _ _, le_max_left _ _, le_max_left _ _, le_max_left _ _, le_max_left _ _⟩

theorem dominates_merge_right (a b : SearchResult K) : Dominates (mergeResults a b) b :=
  ⟨le_max_right _ _, le_max_right _ _, le_max_right _ _, le_max_right _ _, le_max_right _ _, le_max_right _ _⟩

theorem Dominates.rfl (a : SearchResult K) : Dominates a a := ⟨le_rfl, le_rfl, le_rfl, le_rfl, le_rfl, le_rfl⟩

theorem Dominates.trans {a b c : SearchResult K} (hab : Dominates b a) (hbc : Dominates c b) : Dominates c a :=
  ⟨hab.1.trans hbc.1, hab.2.trans hbc.2, hab.3.trans hbc.3, hab.4.trans hbc.4, hab.5.trans hbc.5, hab.6.trans hbc.6⟩

/-- Every result has a class: one that is a duplicate of it, or that it began. -/
theorem covered_deduplicate {inputs : List (SearchResult K)} {x : SearchResult K} (hx : x ∈ inputs) :
    ∃ c ∈ deduplicate inputs, (isDuplicate c x = true ∨ identity c = identity x) ∧ Dominates c x :=
  exists_mem_collect (fun x c => Dominates c x) Dominates.rfl (fun _ _ _ => Dominates.trans)
    dominates_merge_left dominates_merge_right byName hx

/-- What holds of every sort holds of every order by the scores. -/
theorem forall_sorter_iff (all : List (SearchResult K)) (P : List (SearchResult K) → Prop) :
    (∀ s : Sorter K, P (s.run all)) ↔ ∀ l, Ranked (·.finalScore) all l → P l := by
  constructor
  · intro h l hl
    -- a sort that gives this order
    let s : Sorter K :=
      { run := fun results => if results = all then l else (mergeSorter K).run results
        ranked := fun results => by
          split_ifs with heq
          · rw [heq]
            exact hl
          · exact (mergeSorter K).ranked results }
    have hrun : s.run all = l := if_pos rfl
    exact hrun ▸ h s
  · exact fun h s => h _ (s.ranked all)

variable [Field K] {sorter : Sorter K} {inputs : List (SearchResult K)} {topK : ℕ} {weights : FusionWeights K}

/-- What is returned: the first `top_k` of the classes in some order by their scores. -/
theorem fuse_eq : fuse sorter inputs topK weights = (sorter.run (scored weights (deduplicate inputs))).take topK := by
  unfold fuse
  split_ifs with hempty
  · have hnone := (sorter.ranked []).perm.eq_nil
    rw [hempty]
    show [] = (sorter.run []).take topK
    rw [hnone, List.take_nil]
  · rfl

theorem pairwise_scored (weights : FusionWeights K) (inputs : List (SearchResult K)) :
    (scored weights (deduplicate inputs)).Pairwise fun x y => isDuplicate x y = false :=
  List.pairwise_map.mpr (pairwise_collect byName inputs)

end Lemmas

/-- **Fusion keeps its contract**, if a class also stands for the result that began it. -/
theorem fuse_contract {K : Type} [Field K] [LinearOrder K] (sorter : Sorter K) (inputs : List (SearchResult K))
    (topK : ℕ) (weights : FusionWeights K) :
    FusionContract (fun c x => isDuplicate c x = true ∨ identity c = identity x) inputs topK weights
      (fuse sorter inputs topK weights) := by
  have hranked := sorter.ranked (scored weights (deduplicate inputs))
  have hmem : ∀ r ∈ fuse sorter inputs topK weights, r ∈ scored weights (deduplicate inputs) := fun r hr => by
    rw [fuse_eq] at hr
    exact hranked.perm.mem_iff.mp (List.mem_of_mem_take hr)
  refine ⟨?_, ?_, fun r hr => (mem_scored (hmem r hr)).1, fun x hx => covered_deduplicate hx⟩
  · have hpairs := (hranked.perm.pairwise_iff fun {x y} h => (isDuplicate_comm y x).trans h).mpr
      (pairwise_scored weights inputs)
    rw [fuse_eq]
    exact hpairs.sublist (List.take_sublist _ _)
  · rw [fuse_eq]
    exact hranked.top topK

/-- A result without id and path is a class that is no duplicate of it. -/
theorem not_fuse_contract :
    ¬ FusionContract (fun c x => isDuplicate c x = true) [SearchResult.blank] 1 FusionWeights.default
      (fuse (mergeSorter ℚ) [SearchResult.blank] 1 FusionWeights.default) := by
  intro h
  obtain ⟨c, hc, hdup, -⟩ := h.covered SearchResult.blank List.mem_cons_self
  rw [List.mem_singleton.mp hc] at hdup
  cases hdup

end DenseLite.Search.Fusion
