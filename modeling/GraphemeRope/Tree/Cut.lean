import GraphemeRope.Tree.Build

/-! # Cutting a tree

Whatever lies wholly on one side of the cut is kept as it is; only the chunk and the nodes at the
cut are made anew. -/

namespace GraphemeRope
namespace Tree

variable {α ε : Type} [Chunk α ε]

/-- The chunks that hold the first `count` elements of a row, the last one cut. -/
def chunksBefore : List α → Nat → List α
  | [], _ => []
  | chunk :: rest, count =>
      if count = 0 then []
      else if Chunk.length chunk ≤ count then
        chunk :: chunksBefore rest (count - Chunk.length chunk)
      else [Chunk.take chunk count]

/-- The chunks that hold the elements of a row from `start` on, the first one cut. Later chunks are
kept even if they are empty. -/
def chunksFrom : List α → Nat → List α
  | [], _ => []
  | chunk :: rest, start =>
      if start < Chunk.length chunk then
        (if start = 0 then chunk else Chunk.drop chunk start) :: rest
      else chunksFrom rest (start - Chunk.length chunk)

mutual

/-- The tree of the first `count` elements, if any tree is left. -/
def before? (geometry : Geometry) : Tree α → Nat → Option (Tree α)
  | .leaf measure chunks, count =>
      if measure.length ≤ count then some (.leaf measure chunks)
      else if count = 0 then none
      else some (makeLeaf geometry (chunksBefore chunks count))
  | .node measure children, count =>
      if measure.length ≤ count then some (.node measure children)
      else if count = 0 then none
      else some (makeNode geometry (treesBefore geometry children count))

/-- The trees that hold the first `count` elements of a row, the last one cut. -/
def treesBefore (geometry : Geometry) : List (Tree α) → Nat → List (Tree α)
  | [], _ => []
  | tree :: rest, count =>
      if count = 0 then []
      else (tree.before? geometry count).toList ++
        treesBefore geometry rest (count - tree.length)

end

mutual

/-- The tree of the elements from `start` on, if any tree is left. -/
def from? (geometry : Geometry) : Tree α → Nat → Option (Tree α)
  | .leaf measure chunks, start =>
      if start = 0 then some (.leaf measure chunks)
      else if measure.length ≤ start then none
      else some (makeLeaf geometry (chunksFrom chunks start))
  | .node measure children, start =>
      if start = 0 then some (.node measure children)
      else if measure.length ≤ start then none
      else some (makeNode geometry (treesFrom geometry children start))

/-- The trees that hold the elements of a row from `start` on, the first one cut. Later trees are
kept even if they are empty. -/
def treesFrom (geometry : Geometry) : List (Tree α) → Nat → List (Tree α)
  | [], _ => []
  | tree :: rest, start =>
      if start < tree.length then (tree.from? geometry start).toList ++ rest
      else treesFrom geometry rest (start - tree.length)

end

/-- The tree of the first `count` elements. -/
def take (geometry : Geometry) (tree : Tree α) (count : Nat) : Tree α :=
  ((tree.before? geometry count).getD empty).collapse

/-- The tree of the elements from `start` on. -/
def drop (geometry : Geometry) (tree : Tree α) (start : Nat) : Tree α :=
  ((tree.from? geometry start).getD empty).collapse

end Tree
end GraphemeRope
