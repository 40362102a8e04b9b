import GraphemeRope.Proofs.Tree.Made
import GraphemeRope.Tree.Map

/-! # Trees over other chunks

A tree whose chunks are exchanged one by one mirrors the old tree: it has the same nodes, slots and
heights, while its lengths and whether it is dense are taken anew
(`GraphemeRope.Tree.mirrors_mapChunks`).
-/

namespace GraphemeRope
namespace Tree

variable {α β ε δ : Type}

/-- Whether a tree has the nodes, slots and heights of another, and chunks that come of the chunks
there. -/
inductive Mirrors (f : α → β) : Tree β → Tree α → Prop where
  | leaf {measure image : Measure} (chunks : List α) (same : image.height = measure.height) :
      Mirrors f (.leaf image (chunks.map f)) (.leaf measure chunks)
  | node {measure image : Measure} {children : List (Tree α)} {images : List (Tree β)}
      (same : image.height = measure.height) (width : images.length = children.length)
      (slots : ∀ (slot : Nat) child mirror, children[slot]? = some child →
        images[slot]? = some mirror → Mirrors f mirror child) :
      Mirrors f (.node image images) (.node measure children)

/-- A mirrored tree has the height of the tree. -/
theorem Mirrors.height_eq {f : α → β} {image : Tree β} {tree : Tree α}
    (mirrors : Mirrors f image tree) : image.height = tree.height := by
  cases mirrors with
  | leaf chunks same => exact same
  | node same _ _ => exact same

variable [Chunk α ε] [Chunk β δ] {geometry : Geometry} {f : α → β}

omit [Chunk α ε] in
/-- A row of trees is mapped tree by tree. -/
theorem mapChunksOfAll_eq_map (geometry : Geometry) (f : α → β) (trees : List (Tree α)) :
    mapChunksOfAll geometry f trees = trees.map (mapChunks geometry f) := by
  induction trees with
  | nil => rfl
  | cons tree rest ih => rw [mapChunksOfAll, ih, List.map_cons]

omit [Chunk α ε] in
/-- A node is mapped by mapping the trees in its slots. -/
theorem mapChunks_node (measure : Measure) (children : List (Tree α)) :
    (node measure children).mapChunks geometry f =
      makeNode geometry (children.map (mapChunks geometry f)) := by
  rw [mapChunks, mapChunksOfAll_eq_map]

omit [Chunk α ε] in
/-- A mapped tree is made. -/
theorem made_mapChunks (geometry : Geometry) (f : α → β) (tree : Tree α) :
    Made geometry (tree.mapChunks geometry f) := by
  induction tree with
  | leaf measure chunks => exact .leaf _
  | node measure children ih =>
      rw [mapChunks_node]
      apply Made.node
      intro image member
      obtain ⟨child, present, rfl⟩ := List.mem_map.mp member
      exact ih child present

omit [Chunk α ε] in
/-- The chunks of a mapped tree are the images of its chunks. -/
theorem chunks_mapChunks (geometry : Geometry) (f : α → β) (tree : Tree α) :
    (tree.mapChunks geometry f).chunks = tree.chunks.map f := by
  induction tree with
  | leaf measure chunks => rfl
  | node measure children ih =>
      rw [mapChunks_node, chunks_makeNode, chunks_node, chunksOfAll_eq_flatMap,
        chunksOfAll_eq_flatMap, List.flatMap_map, List.map_flatMap, List.flatMap_def,
        List.flatMap_def, List.map_congr_left ih]

/-- **The same shape.** -/
theorem mirrors_mapChunks {tree : Tree α} (made : Made geometry tree) (f : α → β) :
    Mirrors f (tree.mapChunks geometry f) tree := by
  induction made with
  | leaf chunks => exact .leaf chunks rfl
  | node children made ih =>
      have heights : (children.map (mapChunks geometry f)).map height = children.map height := by
        rw [List.map_map]
        exact List.map_congr_left fun child member => (ih child member).height_eq
      rw [makeNode, mapChunks_node]
      -- Only the height of a measure is kept; it depends on the heights below alone.
      refine .node ?_ (List.length_map _) ?_
      · exact congrArg (fun heights => heights.foldl max 0 + 1) heights
      · intro slot child mirror present image
        rw [List.getElem?_map, present, Option.map_some, Option.some.injEq] at image
        rw [← image]
        exact ih child (List.mem_of_getElem? present)

end Tree
end GraphemeRope
