import GraphemeRope.Tree.Basic

/-! # Looking up an element

Scanning adds up the lengths of slots and works in every tree. In a dense tree the digits of the
index name the slots, and nothing is added up. -/

namespace GraphemeRope
namespace Tree

variable {α ε : Type} [Chunk α ε]

/-- The element at an index of a row of chunks. -/
def scanChunks? : List α → Nat → Option ε
  | [], _ => none
  | chunk :: rest, index =>
      if index < Chunk.length chunk then Chunk.element? chunk index
      else scanChunks? rest (index - Chunk.length chunk)

mutual

/-- The element at an index, found by adding up lengths. -/
def scan? : Tree α → Nat → Option ε
  | .leaf _ chunks, index => scanChunks? chunks index
  | .node _ children, index => scanChildren? children index

/-- The element at an index of a row of trees, found by adding up lengths. -/
def scanChildren? : List (Tree α) → Nat → Option ε
  | [], _ => none
  | tree :: rest, index =>
      if index < tree.length then tree.scan? index
      else scanChildren? rest (index - tree.length)

end

mutual

/-- The element whose path is spelled by the digits of an index. -/
def digits? (geometry : Geometry) : Tree α → Nat → Option ε
  | .leaf _ chunks, index =>
      chunks[geometry.slot index 0]?.bind (Chunk.element? · (geometry.leafOffset index))
  | .node measure children, index =>
      digitsIn? geometry children (geometry.slot index measure.height) index

/-- The element whose path, from a slot on, is spelled by the digits of an index. -/
def digitsIn? (geometry : Geometry) : List (Tree α) → Nat → Nat → Option ε
  | [], _, _ => none
  | tree :: _, 0, index => tree.digits? geometry index
  | _ :: rest, slot + 1, index => digitsIn? geometry rest slot index

end

/-- The element at an index if it lies within the tree and the search finds it. -/
def lookup (tree : Tree α) (index : Nat) (search? : Tree α → Nat → Option ε) :
    Except RopeError ε :=
  match if index < tree.length then search? tree index else none with
  | some element => .ok element
  | none => .error (.indexOutOfRange index tree.length)

/-- The element at an index, found by scanning. -/
def element (tree : Tree α) (index : Nat) : Except RopeError ε := tree.lookup index scan?

/-- The element at an index, found by its digits where the tree is dense and by scanning where it
is not. -/
def elementAt (geometry : Geometry) (tree : Tree α) (index : Nat) : Except RopeError ε :=
  tree.lookup index (if tree.isDense then digits? geometry else scan?)

end Tree
end GraphemeRope
