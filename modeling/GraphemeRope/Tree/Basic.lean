import GraphemeRope.Chunk.Basic
import GraphemeRope.Geometry

/-! # Trees of chunks

A leaf holds chunks and a node holds trees, in both cases in its slots, from left to right. Each
keeps a measure of what is below it, so that a position can be found without visiting the rest. -/

namespace GraphemeRope

/-- What a tree remembers of its content: the number of elements, the distance to the leaves, and
whether the digits of an index lead to its element. -/
structure Measure where
  length : Nat
  height : Nat
  dense : Bool
  deriving DecidableEq, Repr

/-- A tree over chunks of type `α`. -/
inductive Tree (α : Type) where
  | leaf (measure : Measure) (chunks : List α)
  | node (measure : Measure) (children : List (Tree α))

namespace Tree

variable {α ε : Type}

/-- The measure kept at the root. -/
def measure : Tree α → Measure
  | .leaf measure _ => measure
  | .node measure _ => measure

/-- The number of elements, as remembered. -/
def length (tree : Tree α) : Nat := tree.measure.length

/-- The distance to the leaves, as remembered. A leaf has height zero. -/
def height (tree : Tree α) : Nat := tree.measure.height

/-- Whether the tree has the regular shape in which the digits of an index lead to its element. -/
def isDense (tree : Tree α) : Bool := tree.measure.dense

/-- Whether there are no elements. Empty chunks do not count. -/
def isEmpty (tree : Tree α) : Bool := tree.length = 0

/-- The tree without chunks. -/
def empty : Tree α := .leaf ⟨0, 0, true⟩ []

/-- The chunks in the slots of a leaf. -/
def slots : Tree α → List α
  | .leaf _ chunks => chunks
  | .node _ _ => []

/-- The trees in the slots of a node. -/
def children : Tree α → List (Tree α)
  | .leaf _ _ => []
  | .node _ children => children

mutual

/-- All chunks from left to right. -/
def chunks : Tree α → List α
  | .leaf _ chunks => chunks
  | .node _ children => chunksOfAll children

/-- All chunks of a row of trees from left to right. -/
def chunksOfAll : List (Tree α) → List α
  | [] => []
  | tree :: rest => tree.chunks ++ chunksOfAll rest

end

variable [Chunk α ε]

/-- All elements from left to right. -/
def elements (tree : Tree α) : List ε := tree.chunks.flatMap Chunk.elements

/-- A leaf with the given chunks. It is dense if the chunks fit its slots and all but the last are
full. -/
def makeLeaf (geometry : Geometry) (chunks : List α) : Tree α :=
  .leaf
    { length := total (chunks.map Chunk.length)
      height := 0
      dense := chunks.length ≤ geometry.branching &&
        packed (fun chunk => Chunk.length chunk = geometry.leafLength)
          (fun chunk => Chunk.length chunk ≤ geometry.leafLength) chunks }
    chunks

omit [Chunk α ε] in
/-- The height of a node over the given trees. A node without children has height one. -/
def heightAbove (children : List (Tree α)) : Nat :=
  (children.map height).foldl max 0 + 1

omit [Chunk α ε] in
/-- A node over the given trees. It is dense if they fit its slots, are dense and of one height, and
all but the last hold as many elements as they can. -/
def makeNode (geometry : Geometry) (children : List (Tree α)) : Tree α :=
  let fits := fun child : Tree α => child.isDense && child.height + 1 = heightAbove children
  .node
    { length := total (children.map length)
      height := heightAbove children
      dense := children.length ≤ geometry.branching &&
        packed (fun child => fits child && child.length = geometry.capacity child.height) fits
          children }
    children

end Tree
end GraphemeRope
