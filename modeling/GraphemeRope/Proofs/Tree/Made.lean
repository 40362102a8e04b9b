import GraphemeRope.Proofs.Chunk
import GraphemeRope.Tree.Basic

/-! # Trees with right measures

A tree is *made* for a geometry if each of its nodes and leaves was given its measure from what is
in its slots. Nothing is said of its shape: there may be empty slots, chunks of any length, and
trees of different heights side by side. In a made tree the remembered length is the number of
elements.
-/

namespace GraphemeRope
namespace Tree

variable {α ε : Type}

/-- Induction on trees, with a hypothesis for each tree in the slots of a node. -/
@[elab_as_elim, induction_eliminator]
theorem induction {motive : Tree α → Prop}
    (leaf : ∀ measure chunks, motive (.leaf measure chunks))
    (node : ∀ measure children, (∀ child ∈ children, motive child) →
      motive (.node measure children)) :
    ∀ tree, motive tree
  | .leaf measure chunks => leaf measure chunks
  | .node measure children =>
      node measure children fun child _ => induction leaf node child

/-- The chunks of a row of trees are those of each, one after the other. -/
theorem chunksOfAll_eq_flatMap (trees : List (Tree α)) :
    chunksOfAll trees = trees.flatMap chunks := by
  induction trees with
  | nil => rfl
  | cons tree rest ih => rw [chunksOfAll, ih, List.flatMap_cons]

@[simp]
theorem chunksOfAll_nil : chunksOfAll ([] : List (Tree α)) = [] := rfl

@[simp]
theorem chunksOfAll_cons (tree : Tree α) (rest : List (Tree α)) :
    chunksOfAll (tree :: rest) = tree.chunks ++ chunksOfAll rest := rfl

@[simp]
theorem chunksOfAll_append (front rear : List (Tree α)) :
    chunksOfAll (front ++ rear) = chunksOfAll front ++ chunksOfAll rear := by
  rw [chunksOfAll_eq_flatMap, List.flatMap_append, ← chunksOfAll_eq_flatMap,
    ← chunksOfAll_eq_flatMap]

@[simp]
theorem chunks_leaf (measure : Measure) (chunks : List α) :
    (leaf measure chunks).chunks = chunks := rfl

@[simp]
theorem chunks_node (measure : Measure) (children : List (Tree α)) :
    (node measure children).chunks = chunksOfAll children := rfl

@[simp]
theorem chunks_empty : (empty : Tree α).chunks = [] := rfl

@[simp]
theorem chunks_makeNode (geometry : Geometry) (children : List (Tree α)) :
    (makeNode geometry children).chunks = chunksOfAll children := rfl

theorem le_foldl_max (heights : List Nat) (least : Nat) : least ≤ heights.foldl max least := by
  induction heights generalizing least with
  | nil => exact Nat.le_refl _
  | cons height rest ih => exact Nat.le_trans (Nat.le_max_left _ _) (ih _)

theorem mem_le_foldl_max {heights : List Nat} {height : Nat} (member : height ∈ heights)
    (least : Nat) : height ≤ heights.foldl max least := by
  induction heights generalizing least with
  | nil => exact absurd member List.not_mem_nil
  | cons first rest ih =>
      rcases List.mem_cons.mp member with rfl | later
      · exact Nat.le_trans (Nat.le_max_right _ _) (le_foldl_max _ _)
      · exact ih later _

theorem foldl_max_le {heights : List Nat} {least bound : Nat} (start : least ≤ bound)
    (bounded : ∀ height ∈ heights, height ≤ bound) : heights.foldl max least ≤ bound := by
  induction heights generalizing least with
  | nil => exact start
  | cons first rest ih =>
      rw [List.forall_mem_cons] at bounded
      exact ih (Nat.max_le.mpr ⟨start, bounded.1⟩) bounded.2

theorem heightAbove_pos (children : List (Tree α)) : 0 < heightAbove children := Nat.succ_pos _

/-- A node is higher than the trees in its slots. -/
theorem height_lt_heightAbove {child : Tree α} {children : List (Tree α)}
    (member : child ∈ children) : child.height < heightAbove children :=
  Nat.lt_succ_of_le (mem_le_foldl_max (List.mem_map_of_mem member) 0)

/-- Over trees of one height a node is one higher. -/
theorem heightAbove_of_uniform {children : List (Tree α)} {height : Nat} (filled : children ≠ [])
    (uniform : ∀ child ∈ children, child.height = height) :
    heightAbove children = height + 1 := by
  obtain ⟨child, rest, rfl⟩ := List.exists_cons_of_ne_nil filled
  have above := height_lt_heightAbove (List.mem_cons_self (a := child) (l := rest))
  rw [uniform child List.mem_cons_self] at above
  have below : heightAbove (child :: rest) ≤ height + 1 := by
    refine Nat.succ_le_succ (foldl_max_le (Nat.zero_le _) ?_)
    intro other member
    obtain ⟨tree, present, rfl⟩ := List.mem_map.mp member
    exact Nat.le_of_eq (uniform tree present)
  omega

/-- A tree is empty exactly if the length that it remembers is zero. -/
theorem isEmpty_iff {tree : Tree α} : tree.isEmpty = true ↔ tree.length = 0 := decide_eq_true_iff

variable [Chunk α ε]

@[simp]
theorem chunks_makeLeaf (geometry : Geometry) (chunks : List α) :
    (makeLeaf geometry chunks).chunks = chunks := rfl

/-- The elements of a tree are those of its chunks. -/
theorem elements_eq_elementsOf (tree : Tree α) :
    tree.elements = Chunk.elementsOf tree.chunks := rfl

@[simp]
theorem elements_empty : (empty : Tree α).elements = [] := rfl

/-- The elements of a row of trees are those of each, one after the other. -/
theorem elementsOf_chunksOfAll (trees : List (Tree α)) :
    Chunk.elementsOf (chunksOfAll trees) = trees.flatMap elements := by
  rw [chunksOfAll_eq_flatMap, Chunk.elementsOf, List.flatMap_assoc]
  rfl

theorem elements_node (measure : Measure) (children : List (Tree α)) :
    (node measure children).elements = children.flatMap elements := by
  rw [elements_eq_elementsOf, chunks_node, elementsOf_chunksOfAll]

/-- Whether every measure in a tree was taken from the slots below it. -/
inductive Made (geometry : Geometry) : Tree α → Prop where
  | leaf (chunks : List α) : Made geometry (makeLeaf geometry chunks)
  | node (children : List (Tree α)) (made : ∀ child ∈ children, Made geometry child) :
      Made geometry (makeNode geometry children)

variable {geometry : Geometry}

theorem makeLeaf_nil (geometry : Geometry) : makeLeaf geometry ([] : List α) = empty := by
  simp only [makeLeaf, empty, List.map_nil, total, List.length_nil, packed, Nat.zero_le,
    decide_true, Bool.and_self]

theorem made_empty : Made geometry (empty : Tree α) := makeLeaf_nil (α := α) geometry ▸ .leaf []

/-- A made node was made from trees that are made. -/
theorem Made.children {measure : Measure} {children : List (Tree α)}
    (made : Made geometry (.node measure children)) :
    ∀ child ∈ children, Made geometry child := by
  cases made with
  | node _ made => exact made

/-- The remembered lengths of trees add up to the number of their elements. -/
theorem total_lengths {trees : List (Tree α)}
    (right : ∀ tree ∈ trees, tree.length = tree.elements.length) :
    total (trees.map length) = (Chunk.elementsOf (chunksOfAll trees)).length := by
  induction trees with
  | nil => rfl
  | cons tree rest ih =>
      rw [List.forall_mem_cons] at right
      rw [List.map_cons, total, ih right.2, chunksOfAll_cons, Chunk.elementsOf_append,
        List.length_append, right.1, elements_eq_elementsOf]

/-- **The remembered length is right.** -/
theorem Made.length_eq {tree : Tree α} (made : Made geometry tree) :
    tree.length = tree.elements.length := by
  induction made with
  | leaf chunks => exact Chunk.total_lengths chunks
  | node children made ih => exact total_lengths ih

/-- A made tree is empty exactly if it has no elements. -/
theorem Made.isEmpty_iff {tree : Tree α} (made : Made geometry tree) :
    tree.isEmpty = true ↔ tree.elements = [] := by
  rw [Tree.isEmpty_iff, made.length_eq, List.length_eq_zero_iff]

end Tree
end GraphemeRope
