import GraphemeRope.Proofs.Tree.Made
import GraphemeRope.Tree.Slot

/-! # Trees with right lengths

Whoever finds an element by adding up lengths asks of a tree only that the lengths it remembers are
right. The element at an index is then the one at an offset of the slot that the index lies in. -/

namespace GraphemeRope
namespace Tree

variable {α ε : Type} [Chunk α ε]

/-- Whether all remembered lengths in a tree are right. -/
inductive Counted : Tree α → Prop where
  | leaf {measure : Measure} {chunks : List α}
      (length_eq : measure.length = total (chunks.map Chunk.length)) :
      Counted (.leaf measure chunks)
  | node {measure : Measure} {children : List (Tree α)}
      (length_eq : measure.length = total (children.map length))
      (counted : ∀ child ∈ children, Counted child) : Counted (.node measure children)

/-- A made tree remembers its lengths rightly. -/
theorem Made.counted {geometry : Geometry} {tree : Tree α} (made : Made geometry tree) :
    Counted tree := by
  induction made with
  | leaf chunks => exact .leaf rfl
  | node children made ih => exact .node rfl ih

namespace Counted

variable {tree : Tree α}

/-- The length of a tree is that of its slots together. -/
theorem length_eq (counted : Counted tree) : tree.length = total tree.slotLengths := by
  cases counted with
  | leaf length_eq => exact length_eq
  | node length_eq _ => exact length_eq

/-- The remembered length is the number of elements. -/
theorem length_eq_elements (counted : Counted tree) : tree.length = tree.elements.length := by
  induction counted with
  | leaf length_eq => exact length_eq.trans (Chunk.total_lengths _)
  | node length_eq _ ih => exact length_eq.trans (total_lengths ih)

/-- What is in the slots of a counted node is counted. -/
theorem forall_children {measure : Measure} {children : List (Tree α)}
    (counted : Counted (.node measure children)) : ∀ child ∈ children, Counted child := by
  cases counted with
  | node _ counted => exact counted

/-- The remembered lengths of trees are those of their elements. -/
theorem map_length {row : List (Tree α)} (counted : ∀ tree ∈ row, Counted tree) :
    row.map length = (row.map elements).map List.length := by
  rw [List.map_map]
  exact List.map_congr_left fun tree member => (counted tree member).length_eq_elements

/-- The element of a node at an offset of one of its slots is the one of the tree there. -/
theorem getElem?_elements_node {measure : Measure} {children : List (Tree α)}
    (counted : Counted (.node measure children)) {slot : Nat} {child : Tree α}
    (owner : children[slot]? = some child) {offset : Nat} (within : offset < child.length) :
    (Tree.node measure children).elements[startOf (children.map length) slot + offset]? =
      child.elements[offset]? := by
  have below := counted.forall_children
  have block : (children.map elements)[slot]? = some child.elements := by
    rw [List.getElem?_map, owner, Option.map_some]
  have inside := (below child (List.mem_of_getElem? owner)).length_eq_elements ▸ within
  rw [elements_node, List.flatMap_def, map_length below, getElem?_flatten_of_owner block inside]

end Counted

/-- The element of a leaf at an offset of one of its slots is the one of the chunk there. -/
theorem getElem?_elements_leaf (measure : Measure) {chunks : List α} {slot : Nat} {chunk : α}
    (owner : chunks[slot]? = some chunk) {offset : Nat} (within : offset < Chunk.length chunk) :
    (leaf measure chunks).elements[startOf (chunks.map Chunk.length) slot + offset]? =
      Chunk.element? chunk offset := by
  have block : (chunks.map Chunk.elements)[slot]? = some (Chunk.elements chunk) := by
    rw [List.getElem?_map, owner, Option.map_some]
  have lengths : (chunks.map Chunk.elements).map List.length = chunks.map Chunk.length :=
    List.map_map
  rw [elements, chunks_leaf, List.flatMap_def, ← lengths, getElem?_flatten_of_owner block within]
  rfl

end Tree
end GraphemeRope
