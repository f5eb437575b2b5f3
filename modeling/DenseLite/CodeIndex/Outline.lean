import DenseLite.CodeIndex.Chunker
import DenseLite.Lib.Outline
import Mathlib.Order.Basic
import Mathlib.Data.Nat.Basic

/-! # The outline of a file

The trees of the parser are well placed: the children of a node lie in it, one behind the other. Then the chunks of a file
are those of its definitions in the order of the text, each with the text of its definition, and the parent of a chunk is
the innermost definition around it (`chunk_outlined`). -/

namespace DenseLite.CodeIndex.Outline

open DenseLite.Lib.ByteStream DenseLite.Lib.Outline DenseLite.CodeIndex.Chunker
open DenseLite.Infer.State (ascii)

/-! ### Trees -/

/-- The byte and the row where a node begins, and where it ends. -/
def first (node : Node) : ℕ × ℕ := (node.startByte.toNat, node.startRow.toNat)

def last (node : Node) : ℕ × ℕ := (node.endByte.toNat, node.endRow.toNat)

mutual

/-- The children of each node lie in it and behind each other. -/
def WellPlaced : Node → Prop
  | node@(.mk _ _ _ _ _ children) => first node ≤ last node ∧ PlacedIn (first node) (last node) children

/-- The nodes lie between the two positions and behind each other. -/
def PlacedIn (start stop : ℕ × ℕ) : List Node → Prop
  | [] => True
  | child :: rest => WellPlaced child ∧ start ≤ first child ∧ last child ≤ stop ∧ PlacedIn (last child) stop rest

end

mutual

/-- The nodes of a tree in the order of a walk. -/
def nodes : Node → List Node
  | node@(.mk _ _ _ _ _ children) => node :: nodesOf children

def nodesOf : List Node → List Node
  | [] => []
  | child :: rest => nodes child ++ nodesOf rest

end

/-- A node that is a definition. -/
def isDefinition (node : Node) : Bool := isStructuralDefinition node.type

/-- The definitions in a tree. -/
def definitions (root : Node) : List Node := (nodes root).filter isDefinition

theorem WellPlaced.le : ∀ {node : Node}, WellPlaced node → first node ≤ last node
  | .mk _ _ _ _ _ _, h => by
    rw [WellPlaced] at h
    exact h.1

/-! ### Chunks with their nodes -/

section Walk

variable (stdHash : Bytes → UInt64) (src filePath language : Bytes)

/-- A chunk and where its definition stands. -/
def entry (p : Node × StructuralChunk) : Entry (ℕ × ℕ) Bytes where
  first := first p.1
  last := last p.1
  name := p.2.symbol
  parent := p.2.parentSymbol

/-- What a walk over some nodes gives: their definitions with the chunks, in an outline between two positions. -/
structure Walked (parentSym : Bytes) (start stop : ℕ × ℕ) (defs : List Node) (chunks : List StructuralChunk)
    (ps : List (Node × StructuralChunk)) : Prop where
  nodes_eq : ps.map (·.1) = defs
  chunks_eq : ps.map (·.2) = chunks
  chunk_eq : ∀ p ∈ ps, p.2 = chunkOf stdHash src filePath language p.2.parentSymbol p.1
  placed : ∀ p ∈ ps, start ≤ first p.1 ∧ first p.1 ≤ last p.1 ∧ last p.1 ≤ stop
  outlined : Outlined parentSym (ps.map entry)

variable {stdHash src filePath language} {parentSym : Bytes} {start stop : ℕ × ℕ}

theorem Walked.mono {defs : List Node} {chunks : List StructuralChunk} {ps : List (Node × StructuralChunk)}
    (h : Walked stdHash src filePath language parentSym start stop defs chunks ps) {start' stop' : ℕ × ℕ}
    (hstart : start' ≤ start) (hstop : stop ≤ stop') :
    Walked stdHash src filePath language parentSym start' stop' defs chunks ps where
  nodes_eq := h.nodes_eq
  chunks_eq := h.chunks_eq
  chunk_eq := h.chunk_eq
  placed p hp := ⟨hstart.trans (h.placed p hp).1, (h.placed p hp).2.1, (h.placed p hp).2.2.trans hstop⟩
  outlined := h.outlined

/-- A definition with the definitions in it. -/
theorem Walked.cons {node : Node} {defs : List Node} {chunks : List StructuralChunk}
    {ps : List (Node × StructuralChunk)} (hle : first node ≤ last node)
    (h : Walked stdHash src filePath language (fullSymbol src parentSym node) (first node) (last node) defs chunks ps) :
    Walked stdHash src filePath language parentSym (first node) (last node) (node :: defs)
      (chunkOf stdHash src filePath language parentSym node :: chunks)
      ((node, chunkOf stdHash src filePath language parentSym node) :: ps) where
  nodes_eq := by rw [List.map_cons, h.nodes_eq]
  chunks_eq := by rw [List.map_cons, h.chunks_eq]
  chunk_eq := List.forall_mem_cons.mpr ⟨rfl, h.chunk_eq⟩
  placed := List.forall_mem_cons.mpr ⟨⟨le_refl _, hle, le_refl _⟩, h.placed⟩
  outlined := by
    refine .cons rfl h.outlined fun x hx => ?_
    obtain ⟨p, hp, rfl⟩ := List.mem_map.mp hx
    exact ⟨(h.placed p hp).1, (h.placed p hp).2.2⟩

/-- The definitions in two parts of a text, one behind the other. -/
theorem Walked.append {middle middle' : ℕ × ℕ} {defs defs' : List Node} {chunks chunks' : List StructuralChunk}
    {ps qs : List (Node × StructuralChunk)}
    (h : Walked stdHash src filePath language parentSym start middle defs chunks ps)
    (h' : Walked stdHash src filePath language parentSym middle' stop defs' chunks' qs) (hmiddle : middle ≤ middle')
    (hstart : start ≤ middle') (hstop : middle ≤ stop) :
    Walked stdHash src filePath language parentSym start stop (defs ++ defs') (chunks ++ chunks') (ps ++ qs) where
  nodes_eq := by rw [List.map_append, h.nodes_eq, h'.nodes_eq]
  chunks_eq := by rw [List.map_append, h.chunks_eq, h'.chunks_eq]
  chunk_eq := List.forall_mem_append.mpr ⟨h.chunk_eq, h'.chunk_eq⟩
  placed := List.forall_mem_append.mpr ⟨(h.mono (le_refl _) hstop).placed, (h'.mono hstart (le_refl _)).placed⟩
  outlined := by
    rw [List.map_append]
    refine h.outlined.append h'.outlined fun x hx y hy => ?_
    obtain ⟨p, hp, rfl⟩ := List.mem_map.mp hx
    obtain ⟨q, hq, rfl⟩ := List.mem_map.mp hy
    exact (h.placed p hp).2.2.trans (hmiddle.trans (h'.placed q hq).1)

mutual

theorem walked_walkAst : ∀ {node : Node} (parentSym : Bytes), WellPlaced node →
    ∃ ps, Walked stdHash src filePath language parentSym (first node) (last node)
      (definitions node) (walkAst stdHash src filePath language parentSym node) ps
  | .mk type startByte endByte startRow endRow children, parentSym, h => by
    rw [WellPlaced] at h
    obtain ⟨hle, hplaced⟩ := h
    rw [definitions, nodes, walkAst]
    by_cases hdef : isDefinition (.mk type startByte endByte startRow endRow children)
    · obtain ⟨ps, hps⟩ := walked_walkChildren
        (fullSymbol src parentSym (.mk type startByte endByte startRow endRow children)) hplaced
      rw [List.filter_cons_of_pos hdef, if_pos (show isStructuralDefinition _ = true from hdef)]
      exact ⟨_, hps.cons hle⟩
    · obtain ⟨ps, hps⟩ := walked_walkChildren parentSym hplaced
      rw [List.filter_cons_of_neg hdef, if_neg (show ¬ isStructuralDefinition _ = true from hdef)]
      exact ⟨ps, hps⟩

theorem walked_walkChildren : ∀ {children : List Node} {start stop : ℕ × ℕ} (parentSym : Bytes),
    PlacedIn start stop children → ∃ ps, Walked stdHash src filePath language parentSym start stop
      ((nodesOf children).filter isDefinition) (walkChildren stdHash src filePath language parentSym children) ps
  | [], _, _, _, _ => ⟨[], rfl, rfl, by simp, by simp, .nil⟩
  | child :: rest, start, stop, parentSym, h => by
    rw [PlacedIn] at h
    obtain ⟨hchild, hstart, hstop, hrest⟩ := h
    obtain ⟨ps, hps⟩ := walked_walkAst parentSym hchild
    obtain ⟨qs, hqs⟩ := walked_walkChildren parentSym hrest
    rw [nodesOf, List.filter_append, walkChildren]
    exact ⟨ps ++ qs, (hps.mono hstart (le_refl _)).append hqs (le_refl _) (hstart.trans hchild.le) hstop⟩

end

end Walk

/-! ### `chunk` -/

section Chunk

variable {parse : Bytes → Bytes → Option Node} {stdHash : Bytes → UInt64} {filePath sourceCode : Bytes}

/-- The definitions in a file. -/
def fileDefinitions (parse : Bytes → Bytes → Option Node) (filePath sourceCode : Bytes) : List Node :=
  if grammars.contains (detectLanguage filePath) then
    (parse (detectLanguage filePath) sourceCode).elim [] definitions
  else []

/-- The text of a node. -/
def slice (sourceCode : Bytes) (node : Node) : Bytes :=
  (sourceCode.drop node.startByte.toNat).take (node.endByte.toNat - node.startByte.toNat)

/-- The text of a node in the file; at the end of the file there is none. -/
theorem extractNodeText_eq {node : Node} (hle : first node ≤ last node)
    (hend : node.endByte.toNat ≤ sourceCode.length) : extractNodeText sourceCode node = slice sourceCode node := by
  have hbytes : node.startByte.toNat ≤ node.endByte.toNat := (Prod.mk_le_mk.mp hle).1
  simp only [extractNodeText, slice]
  split_ifs with h
  · rfl
  · have : node.endByte.toNat - node.startByte.toNat = 0 := by omega
    rw [this, List.take_zero]

/-- **The chunks of a file are its definitions in the order of the text.** Each has the text of its definition, and its
parent is the innermost definition around it. A file without definitions, and no other one, is a module chunk of its whole
text. -/
theorem chunk_outlined (hparse : ∀ root, parse (detectLanguage filePath) sourceCode = some root →
    WellPlaced root ∧ root.endByte.toNat ≤ sourceCode.length) (hne : sourceCode ≠ []) :
    (fileDefinitions parse filePath sourceCode = [] ∧
      ∃ language, chunk parse stdHash filePath sourceCode = [moduleChunk stdHash filePath language sourceCode]) ∨
    fileDefinitions parse filePath sourceCode ≠ [] ∧
      ∃ ps : List (Node × StructuralChunk), ps.map (·.1) = fileDefinitions parse filePath sourceCode ∧
      ps.map (·.2) = chunk parse stdHash filePath sourceCode ∧
      (∀ p ∈ ps, p.2 = chunkOf stdHash sourceCode filePath (detectLanguage filePath) p.2.parentSymbol p.1 ∧
        p.2.content = slice sourceCode p.1) ∧
      Outlined [] (ps.map entry) := by
  unfold chunk fileDefinitions
  rw [if_neg hne]
  split_ifs with hgrammar
  · unfold definitionChunks
    cases hroot : parse (detectLanguage filePath) sourceCode with
    | none => exact .inl ⟨rfl, _, rfl⟩
    | some root =>
      obtain ⟨hplaced, hend⟩ := hparse root hroot
      obtain ⟨ps, hps⟩ := @walked_walkAst stdHash sourceCode filePath (detectLanguage filePath) root [] hplaced
      simp only [Option.elim_some]
      cases hchunks : walkAst stdHash sourceCode filePath (detectLanguage filePath) [] root with
      | nil =>
        have hnil : ps = [] := List.map_eq_nil_iff.mp (hps.chunks_eq.trans hchunks)
        exact .inl ⟨by rw [← hps.nodes_eq, hnil]; rfl, _, rfl⟩
      | cons c cs =>
        have hdefs : definitions root ≠ [] := by
          rw [← hps.nodes_eq]
          intro hnil
          have hempty := hps.chunks_eq
          rw [List.map_eq_nil_iff.mp hnil, hchunks] at hempty
          cases hempty
        refine .inr ⟨hdefs, ps, hps.nodes_eq, hps.chunks_eq.trans hchunks, fun p hp => ⟨hps.chunk_eq p hp, ?_⟩,
          hps.outlined⟩
        have hlast : (last p.1).1 ≤ (last root).1 := (Prod.le_def.mp (hps.placed p hp).2.2).1
        rw [hps.chunk_eq p hp]
        exact extractNodeText_eq (hps.placed p hp).2.1 (le_trans hlast hend)
  · exact .inl ⟨rfl, _, rfl⟩

/-- A class with a method. -/
def classSource : Bytes := ascii "class A:\n def f(): 0"

/-- The tree of the parser, with the nodes of the marks. -/
def classTree : Node :=
  .mk (ascii "module") 0 20 0 1 [.mk (ascii "class_definition") 0 20 0 1 [.mk (ascii "class") 0 5 0 0 [],
    .mk (ascii "identifier") 6 7 0 0 [], .mk (ascii ":") 7 8 0 0 [],
    .mk (ascii "block") 10 20 1 1 [.mk (ascii "function_definition") 10 20 1 1 [.mk (ascii "def") 10 13 1 1 [],
      .mk (ascii "identifier") 14 15 1 1 [],
      .mk (ascii "parameters") 15 17 1 1 [.mk (ascii "(") 15 16 1 1 [], .mk (ascii ")") 16 17 1 1 []],
      .mk (ascii ":") 17 18 1 1 [],
      .mk (ascii "block") 19 20 1 1 [.mk (ascii "expression_statement") 19 20 1 1
        [.mk (ascii "integer") 19 20 1 1 []]]]]]]

theorem chunk_outlined_class : ((fileDefinitions (fun _ _ => some classTree) (ascii "a.py") classSource = [] ∧
      ∃ language, chunk (fun _ _ => some classTree) (fun _ => 0) (ascii "a.py") classSource =
        [moduleChunk (fun _ => 0) (ascii "a.py") language classSource]) ∨
    fileDefinitions (fun _ _ => some classTree) (ascii "a.py") classSource ≠ [] ∧ ∃ ps : List (Node × StructuralChunk),
      ps.map (·.1) = fileDefinitions (fun _ _ => some classTree) (ascii "a.py") classSource ∧
      ps.map (·.2) = chunk (fun _ _ => some classTree) (fun _ => 0) (ascii "a.py") classSource ∧
      (∀ p ∈ ps, p.2 = chunkOf (fun _ => 0) classSource (ascii "a.py") (detectLanguage (ascii "a.py"))
        p.2.parentSymbol p.1 ∧ p.2.content = slice classSource p.1) ∧
      Outlined [] (ps.map entry)) ∧
    (chunk (fun _ _ => some classTree) (fun _ => 0) (ascii "a.py") classSource).map (·.symbol) =
      [ascii "A", ascii "A::f"] := by
  have hplaced : WellPlaced classTree ∧ classTree.endByte.toNat ≤ classSource.length := by
    refine ⟨?_, by decide +kernel⟩
    simp [classTree, WellPlaced, PlacedIn, first, last, Node.startByte, Node.endByte, Node.startRow, Node.endRow]
  refine ⟨chunk_outlined (fun root hroot => ?_) (by decide +kernel), by decide +kernel⟩
  exact Option.some.inj hroot ▸ hplaced

end Chunk

end DenseLite.CodeIndex.Outline
