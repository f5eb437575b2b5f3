import DenseLite.CodeIndex.Chunker
import DenseLite.Memory.Recall
import DenseLite.Search.Fusion

/-! # The channels of the search

`ExactSearch`, `LexicalSearch` and `StructuralSearch`: what each of them finds among chunks of code, in the order of the
chunks, and what the lexical one finds among texts. A chunk is named in all of them by its path and its first line. -/

namespace DenseLite.Search.Channels

open DenseLite.Lib.ByteStream DenseLite.Infer.State
open DenseLite.CodeIndex.Chunker (StructuralChunk)
open DenseLite.Memory.Cache (lower)
open DenseLite.Memory.Recall (isAlnum)
open DenseLite.Search.Fusion

/-- `icase_equals`. -/
def icaseEquals (a b : Bytes) : Bool := lower a = lower b

/-- `icase_contains`. -/
def icaseContains (str sub : Bytes) : Bool := occursIn (lower sub) (lower str)

/-- `ExactSearch::is_exact_symbol`. -/
def isExactSymbol (query target : Bytes) : Bool := query ≠ [] && target ≠ [] && icaseEquals query target

/-! ### Terms -/

/-- `LexicalSearch::tokenize`: the words of at least two characters, in small letters. -/
def tokenize (text : Bytes) : List Bytes :=
  ((text.splitOnP fun c => !(isAlnum c || c = 95)).filter fun word => 2 ≤ word.length).map lower

section Code

variable {K : Type} [Field K] [LinearOrder K]

/-- `LexicalSearch::score_content`. -/
def scoreContent (queryTerms : List Bytes) (content : Bytes) : K :=
  let docTerms := tokenize content
  let uniqueQuery := queryTerms.dedup
  if queryTerms = [] ∨ content = [] ∨ docTerms = [] then 0
  else min 1 ((uniqueQuery.countP (docTerms.contains ·) : K) / (uniqueQuery.length : K))

/-! ### Chunks -/

/-- What every channel says about a chunk. -/
def chunkResult (chunk : StructuralChunk) : SearchResult K :=
  { SearchResult.blank with
    id := chunk.filePath ++ ascii ":" ++ ascii (toString chunk.startLine.toInt)
    source := .code
    filePath := chunk.filePath
    symbolName := chunk.symbol
    content := chunk.content
    lineStart := chunk.startLine.toUInt32
    lineEnd := chunk.endLine.toUInt32 }

/-- The symbol of the chunk or of its parent is the query. -/
def symbolHit (query : Bytes) (chunk : StructuralChunk) : Bool :=
  isExactSymbol query chunk.symbol || isExactSymbol query chunk.parentSymbol

/-- `ExactSearch` finds the chunk. -/
def exactHit (query : Bytes) (chunk : StructuralChunk) : Bool :=
  symbolHit query chunk || icaseContains chunk.content query

/-- `ExactSearch::search_code`. -/
def searchCode (query : Bytes) (chunks : List StructuralChunk) : List (SearchResult K) :=
  if query = [] then []
  else (chunks.filter (exactHit query)).map fun chunk =>
    { chunkResult chunk with
      symbolMatch := if symbolHit query chunk then 1 else hundredths 50
      lexicalScore := if icaseContains chunk.content query then hundredths 70 else 0
      structuralImportance :=
        if chunk.parentSymbol = [] ∨ chunk.parentSymbol = chunk.symbol then 1 else hundredths 80 }

/-- `LexicalSearch::search_chunks`. -/
def searchChunks (query : Bytes) (chunks : List StructuralChunk) (threshold : K) : List (SearchResult K) :=
  let queryTerms := tokenize query
  if queryTerms = [] then []
  else (chunks.filter fun chunk => threshold ≤ scoreContent queryTerms chunk.content).map fun chunk =>
    { chunkResult chunk with
      lexicalScore := scoreContent queryTerms chunk.content
      structuralImportance :=
        if chunk.parentSymbol = [] ∨ chunk.parentSymbol = chunk.symbol then hundredths 90 else hundredths 70 }

/-- `LexicalSearch::search_texts`. -/
def searchTexts (query : Bytes) (idAndTexts : List (Bytes × Bytes)) (threshold : K) : List (SearchResult K) :=
  let queryTerms := tokenize query
  if queryTerms = [] then []
  else (idAndTexts.filter fun item => threshold ≤ scoreContent queryTerms item.2).map fun item =>
    { SearchResult.blank with
      id := item.1
      source := .text
      content := item.2
      lexicalScore := scoreContent queryTerms item.2 }

/-- `StructuralSearch::search_all`. -/
def searchAll (query : Bytes) (chunks : List StructuralChunk) : List (SearchResult K) :=
  if query = [] then []
  else (chunks.filter fun chunk => icaseContains chunk.symbol query || icaseContains chunk.parentSymbol query).map
    fun chunk =>
      { chunkResult chunk with
        structuralImportance :=
          if chunk.parentSymbol = [] ∨ icaseEquals chunk.parentSymbol chunk.symbol then 1 else hundredths 75
        symbolMatch := if icaseEquals chunk.symbol query then 1 else hundredths 60
        lexicalScore := hundredths 50 }

end Code

end DenseLite.Search.Channels
