import GraphemeRope.Tree.Cut

/-! # Joining trees

Two trees of any heights are joined at their seam: the higher one is followed down its edge to the
height of the other, and only the nodes on that way are made anew. -/

namespace GraphemeRope
namespace Tree

variable {α ε : Type} [Chunk α ε]

mutual

/-- The siblings that replace a tree when a row of chunks is put before its first one. -/
def prepended (geometry : Geometry) (front : List α) : Tree α → List (Tree α)
  | .leaf _ chunks => leaves geometry (front ++ chunks)
  | .node _ children => regroup geometry (prependedFirst geometry front children)

/-- A row of trees with a row of chunks put before the first chunk of the first tree. -/
def prependedFirst (geometry : Geometry) (front : List α) : List (Tree α) → List (Tree α)
  | [] => [makeLeaf geometry front]
  | first :: rest => first.prepended geometry front ++ rest

end

mutual

/-- The siblings that replace a tree when another, `rear`, is put after it. The way down the right
edge ends at a node of the same height or at a leaf. -/
def extended (geometry : Geometry) (rear : Tree α) : Tree α → List (Tree α)
  | .leaf _ chunks => rear.prepended geometry chunks
  | .node measure children =>
      if measure.height = rear.height then regroup geometry (children ++ rear.children)
      else regroup geometry (extendedLast geometry rear children)

/-- A row of trees with another tree put after the last of them. -/
def extendedLast (geometry : Geometry) (rear : Tree α) : List (Tree α) → List (Tree α)
  | [] => [rear]
  | [last] => extended geometry rear last
  | first :: next :: rest => first :: extendedLast geometry rear (next :: rest)

end

mutual

/-- The siblings that replace a tree when another, `front`, is put before it. The way down the left
edge ends at a node of the same height or at a leaf. -/
def preceded (geometry : Geometry) (front : Tree α) : Tree α → List (Tree α)
  | .leaf measure chunks => extended geometry (.leaf measure chunks) front
  | .node measure children =>
      if measure.height = front.height then regroup geometry (front.children ++ children)
      else regroup geometry (precededFirst geometry front children)

/-- A row of trees with another tree put before the first of them. -/
def precededFirst (geometry : Geometry) (front : Tree α) : List (Tree α) → List (Tree α)
  | [] => [front]
  | first :: rest => preceded geometry front first ++ rest

end

/-- The tree of the content of one tree followed by that of another. -/
def append (geometry : Geometry) (left right : Tree α) : Tree α :=
  if right.isEmpty then left
  else if left.isEmpty then right
  else if right.height ≤ left.height then ofSiblings geometry (extended geometry right left)
  else ofSiblings geometry (preceded geometry left right)

/-- The tree with the elements from `start` up to `stop` replaced by content. -/
def replace (geometry : Geometry) (tree : Tree α) (start stop : Nat) (content : α) : Tree α :=
  let middle := ofChunks geometry (Chunk.rechunk [content] geometry.leafLength)
  (append geometry (append geometry (tree.take geometry start) middle)
    (tree.drop geometry stop)).collapse

end Tree
end GraphemeRope
