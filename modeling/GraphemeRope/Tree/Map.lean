import GraphemeRope.Tree.Basic

/-! # Trees of other chunks -/

namespace GraphemeRope
namespace Tree

variable {α β ε δ : Type} [Chunk α ε] [Chunk β δ]

mutual

/-- The tree of the same nodes and slots over other chunks. Measures are taken anew. -/
def mapChunks (geometry : Geometry) (f : α → β) : Tree α → Tree β
  | .leaf _ chunks => makeLeaf geometry (chunks.map f)
  | .node _ children => makeNode geometry (mapChunksOfAll geometry f children)

/-- A row of trees over other chunks. -/
def mapChunksOfAll (geometry : Geometry) (f : α → β) : List (Tree α) → List (Tree β)
  | [] => []
  | tree :: rest => tree.mapChunks geometry f :: mapChunksOfAll geometry f rest

end

end Tree
end GraphemeRope
