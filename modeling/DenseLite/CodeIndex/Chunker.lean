import DenseLite.Memory.Cache

/-! # Structural chunks

`ASTChunker::chunk` parses a file with tree-sitter and walks over the tree; each definition that it meets becomes a
chunk. The trees come from outside (`parse`). -/

namespace DenseLite.CodeIndex.Chunker

open DenseLite.Lib.ByteStream DenseLite.Lib.KeyMap
open DenseLite.Infer.State (ascii)
open DenseLite.Memory.Cache (lower)

/-- `StructuralChunk`. -/
structure StructuralChunk where
  filePath : Bytes
  symbol : Bytes
  parentSymbol : Bytes
  language : Bytes
  startLine : Int32
  endLine : Int32
  sourceHash : UInt64
  content : Bytes
deriving DecidableEq

/-- A node of a syntax tree: its type, the bytes and the rows it stands in, its children. -/
inductive Node
  | mk (type : Bytes) (startByte endByte startRow endRow : UInt32) (children : List Node)

namespace Node

def type : Node → Bytes
  | mk type _ _ _ _ _ => type

def startByte : Node → UInt32
  | mk _ startByte _ _ _ _ => startByte

def endByte : Node → UInt32
  | mk _ _ endByte _ _ _ => endByte

def startRow : Node → UInt32
  | mk _ _ _ startRow _ _ => startRow

def endRow : Node → UInt32
  | mk _ _ _ _ endRow _ => endRow

end Node

/-! ### Languages -/

/-- `extension_map_`. -/
def extensionMap : List (Bytes × Bytes) :=
  [(ascii ".cpp", ascii "cpp"), (ascii ".hpp", ascii "cpp"), (ascii ".cc", ascii "cpp"), (ascii ".cxx", ascii "cpp"),
    (ascii ".c", ascii "cpp"), (ascii ".h", ascii "cpp"), (ascii ".py", ascii "python"), (ascii ".pyi", ascii "python"),
    (ascii ".php", ascii "php"), (ascii ".js", ascii "javascript"), (ascii ".jsx", ascii "javascript"),
    (ascii ".ts", ascii "javascript"), (ascii ".tsx", ascii "javascript"), (ascii ".mjs", ascii "javascript")]

/-- `detect_language`. -/
def detectLanguage (filePath : Bytes) : Bytes :=
  if 0x2e ∈ filePath then
    let ext := 0x2e :: (filePath.reverse.takeWhile (· ≠ 0x2e)).reverse
    (find (lower ext) extensionMap).getD []
  else []

/-- The languages that `get_grammar_for_language` has a grammar for. -/
def grammars : List Bytes := [ascii "cpp", ascii "python", ascii "php", ascii "javascript"]

/-! ### The walk -/

section Walk

variable (stdHash : Bytes → UInt64) (src : Bytes)

/-- `extract_node_text`. -/
def extractNodeText (node : Node) : Bytes :=
  let start := node.startByte.toNat
  let stop := node.endByte.toNat
  if start < src.length ∧ stop ≤ src.length ∧ start ≤ stop then (src.drop start).take (stop - start) else []

/-- The types of nodes that are names. -/
def identifierTypes : List Bytes :=
  [ascii "identifier", ascii "name", ascii "type_identifier", ascii "field_identifier"]

/-- The types of nodes that a name is looked for in. -/
def declaratorTypes : List Bytes := [ascii "function_declarator", ascii "declarator"]

mutual

/-- `find_identifier_name`. -/
def findIdentifierName : Node → Bytes
  | .mk _ _ _ _ _ children => findInChildren children

/-- The loop over the children of a node. -/
def findInChildren : List Node → Bytes
  | [] => []
  | child :: rest =>
    if child.type ∈ identifierTypes then extractNodeText src child
    else if child.type ∈ declaratorTypes ∧ findIdentifierName child ≠ [] then findIdentifierName child
    else findInChildren rest

end

/-- `is_structural_definition`. -/
def isStructuralDefinition (type : Bytes) : Bool :=
  [ascii "function_definition", ascii "class_definition", ascii "class_specifier", ascii "class_declaration",
    ascii "struct_specifier", ascii "method_declaration", ascii "method_definition",
    ascii "function_declaration"].contains type

/-- The symbol of a definition. -/
def fullSymbol (parentSym : Bytes) (node : Node) : Bytes :=
  let sym := findIdentifierName src node
  let sym := if sym = [] then ascii "<anonymous_" ++ node.type ++ ascii ">" else sym
  if parentSym = [] then sym else parentSym ++ ascii "::" ++ sym

/-- The chunk of a definition. -/
def chunkOf (filePath language parentSym : Bytes) (node : Node) : StructuralChunk where
  filePath := filePath
  symbol := fullSymbol src parentSym node
  parentSymbol := parentSym
  language := language
  startLine := (node.startRow + 1).toInt32
  endLine := (node.endRow + 1).toInt32
  sourceHash := stdHash (extractNodeText src node)
  content := extractNodeText src node

mutual

/-- `walk_ast`. -/
def walkAst (filePath language parentSym : Bytes) : Node → List StructuralChunk
  | node@(.mk _ _ _ _ _ children) =>
    if isStructuralDefinition node.type then
      chunkOf stdHash src filePath language parentSym node ::
        walkChildren filePath language (fullSymbol src parentSym node) children
    else walkChildren filePath language parentSym children

/-- The loop over the children of a node. -/
def walkChildren (filePath language parentSym : Bytes) : List Node → List StructuralChunk
  | [] => []
  | child :: rest =>
    walkAst filePath language parentSym child ++ walkChildren filePath language parentSym rest

end

end Walk

section Chunk

variable (parse : Bytes → Bytes → Option Node) (stdHash : Bytes → UInt64)

/-- The chunk of a whole file. -/
def moduleChunk (filePath language content : Bytes) : StructuralChunk where
  filePath := filePath
  symbol := ascii "<module>"
  parentSymbol := []
  language := language
  startLine := 1
  endLine := 1
  sourceHash := stdHash content
  content := content

/-- The chunks of the definitions in a file. -/
def definitionChunks (filePath lang sourceCode : Bytes) : List StructuralChunk :=
  (parse lang sourceCode).elim [] (walkAst stdHash sourceCode filePath lang [])

/-- `ASTChunker::chunk`. -/
def chunk (filePath sourceCode : Bytes) : List StructuralChunk :=
  if sourceCode = [] then []
  else if grammars.contains (detectLanguage filePath) then
    match definitionChunks parse stdHash filePath (detectLanguage filePath) sourceCode with
    | [] => [moduleChunk stdHash filePath (detectLanguage filePath) sourceCode]
    | c :: cs => c :: cs
  else [moduleChunk stdHash filePath (ascii "raw") sourceCode]

end Chunk

/-! ### What the chunks are of -/

section Facts

variable {parse : Bytes → Bytes → Option Node} {stdHash : Bytes → UInt64} {src filePath language : Bytes}

mutual

theorem filePath_of_mem_walkAst : ∀ {parentSym : Bytes} {node : Node} {c : StructuralChunk},
    c ∈ walkAst stdHash src filePath language parentSym node → c.filePath = filePath
  | parentSym, .mk _ _ _ _ _ children, c, h => by
    rw [walkAst] at h
    split at h
    · rcases List.mem_cons.mp h with rfl | h
      · rfl
      · exact filePath_of_mem_walkChildren h
    · exact filePath_of_mem_walkChildren h

theorem filePath_of_mem_walkChildren : ∀ {parentSym : Bytes} {children : List Node} {c : StructuralChunk},
    c ∈ walkChildren stdHash src filePath language parentSym children → c.filePath = filePath
  | _, [], c, h => by simp [walkChildren] at h
  | _, child :: rest, c, h => by
    rw [walkChildren] at h
    rcases List.mem_append.mp h with h | h
    · exact filePath_of_mem_walkAst h
    · exact filePath_of_mem_walkChildren h

end

/-- The chunks of a file are chunks of that file. -/
theorem filePath_of_mem_chunk {content : Bytes} {c : StructuralChunk}
    (h : c ∈ chunk parse stdHash filePath content) : c.filePath = filePath := by
  unfold chunk at h
  split_ifs at h with hempty
  · cases h
  · cases hchunks : definitionChunks parse stdHash filePath (detectLanguage filePath) content with
    | nil =>
      rw [hchunks] at h
      rw [List.mem_singleton.mp h]
      rfl
    | cons d ds =>
      rw [hchunks] at h
      have hmem : c ∈ definitionChunks parse stdHash filePath (detectLanguage filePath) content := hchunks ▸ h
      unfold definitionChunks at hmem
      cases hparse : parse (detectLanguage filePath) content with
      | none =>
        rw [hparse] at hmem
        cases hmem
      | some root =>
        rw [hparse] at hmem
        exact filePath_of_mem_walkAst hmem
  · rw [List.mem_singleton.mp h]
    rfl

end Facts

end DenseLite.CodeIndex.Chunker
