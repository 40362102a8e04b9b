import GraphemeRope.Tree.Basic

/-! # Building trees

Trees are stacked from their leaves: a row of siblings is put under parents, these under parents of
their own, until a single root is left. -/

namespace GraphemeRope
namespace Tree

variable {α ε : Type}

/-- A row of trees under parents that are filled from the left. -/
def regroup (geometry : Geometry) (siblings : List (Tree α)) : List (Tree α) :=
  (groups geometry.branching siblings).map (makeNode geometry)

/-- Putting two or more siblings under parents leaves fewer of them. -/
theorem length_regroup_lt (geometry : Geometry) (siblings : List (Tree α))
    (several : 2 ≤ siblings.length) : (regroup geometry siblings).length < siblings.length := by
  have halved := length_groups_le geometry.two_le_branching siblings
  simp only [regroup, List.length_map]
  omega

/-- The tree over a row of siblings. -/
def ofSiblings (geometry : Geometry) : List (Tree α) → Tree α
  | [] => empty
  | [only] => only
  | first :: second :: rest => ofSiblings geometry (regroup geometry (first :: second :: rest))
termination_by siblings => siblings.length
decreasing_by exact length_regroup_lt geometry _ (by simp only [List.length_cons]; omega)

/-- The root of a tree without the nodes above it that have a single child. A node without children
becomes the empty tree. -/
def collapse : Tree α → Tree α
  | .leaf measure chunks => .leaf measure chunks
  | .node _ [] => empty
  | .node _ [only] => only.collapse
  | .node measure (first :: second :: rest) => .node measure (first :: second :: rest)

variable [Chunk α ε]

/-- A row of chunks in leaves that are filled from the left. -/
def leaves (geometry : Geometry) (chunks : List α) : List (Tree α) :=
  (groups geometry.branching chunks).map (makeLeaf geometry)

/-- The tree over a row of chunks, with every node filled from the left. -/
def ofChunks (geometry : Geometry) (chunks : List α) : Tree α :=
  ofSiblings geometry (leaves geometry chunks)

mutual

/-- The siblings that replace a tree when a chunk is put after its last one. -/
def pushed (geometry : Geometry) (chunk : α) : Tree α → List (Tree α)
  | .leaf measure chunks =>
      if chunks.length < geometry.branching then [makeLeaf geometry (chunks ++ [chunk])]
      else [.leaf measure chunks, makeLeaf geometry [chunk]]
  | .node _ children => regroup geometry (pushedLast geometry chunk children)

/-- A row of trees with a chunk put after the last chunk of the last tree. -/
def pushedLast (geometry : Geometry) (chunk : α) : List (Tree α) → List (Tree α)
  | [] => [makeLeaf geometry [chunk]]
  | [last] => last.pushed geometry chunk
  | first :: next :: rest => first :: pushedLast geometry chunk (next :: rest)

end

/-- The tree with a chunk put after its last one. -/
def push (geometry : Geometry) (tree : Tree α) (chunk : α) : Tree α :=
  ofSiblings geometry (tree.pushed geometry chunk)

/-- The tree with a row of chunks put after its last one, one by one. -/
def pushAll (geometry : Geometry) (tree : Tree α) (chunks : List α) : Tree α :=
  chunks.foldl (push geometry) tree

end Tree
end GraphemeRope
