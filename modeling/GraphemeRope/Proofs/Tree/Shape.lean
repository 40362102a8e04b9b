import GraphemeRope.Proofs.Tree.Made

/-! # Well-formed trees

A tree is *uniform* if its leaves all lie at one depth, no leaf or node below it is empty or has
more slots than the geometry allows, and every remembered length and height is right. A whole tree
may in addition be the empty leaf, and its root has at least two trees below it unless it is a leaf.
The operations on trees pass through rows of uniform siblings of one height, which are put under
parents until a well-formed tree is left. That such a row stays uniform is true of anything that can
be said of trees by their height (`GraphemeRope.Tree.Graded`), and is shown so.
-/

namespace GraphemeRope
namespace Tree

variable {α ε : Type} [Chunk α ε]

/-- The trees of a height with leaves at one depth, filled slots and right measures. -/
inductive Uniform (geometry : Geometry) : Nat → Tree α → Prop where
  | leaf {measure : Measure} {chunks : List α}
      (length_eq : measure.length = total (chunks.map Chunk.length))
      (height_eq : measure.height = 0)
      (filled : chunks ≠ []) (fits : chunks.length ≤ geometry.branching) :
      Uniform geometry 0 (.leaf measure chunks)
  | node {height : Nat} {measure : Measure} {children : List (Tree α)}
      (length_eq : measure.length = total ((chunksOfAll children).map Chunk.length))
      (height_eq : measure.height = height + 1)
      (filled : children ≠ []) (fits : children.length ≤ geometry.branching)
      (uniform : ∀ child ∈ children, Uniform geometry height child) :
      Uniform geometry (height + 1) (.node measure children)

/-- The trees that a region of a rope may be: the empty leaf, or a uniform tree whose root is a leaf
or branches. -/
inductive WellFormed (geometry : Geometry) : Tree α → Prop where
  | empty : WellFormed geometry .empty
  | uniform {height : Nat} {tree : Tree α} (uniform : Uniform geometry height tree)
      (branches : tree.children.length ≠ 1) : WellFormed geometry tree

variable {geometry : Geometry} {height : Nat} {tree : Tree α}

namespace Uniform

/-- The remembered height of a uniform tree is the depth of its leaves. -/
theorem height_eq (uniform : Uniform geometry height tree) : tree.height = height := by
  cases uniform with
  | leaf _ height_eq _ _ => exact height_eq
  | node _ height_eq _ _ _ => exact height_eq

/-- The remembered length of a uniform tree is the number of its elements. -/
theorem length_eq (uniform : Uniform geometry height tree) :
    tree.length = tree.elements.length := by
  cases uniform with
  | leaf length_eq _ _ _ => exact length_eq.trans (Chunk.total_lengths _)
  | node length_eq _ _ _ _ => exact length_eq.trans (Chunk.total_lengths _)

/-- A uniform tree has a chunk. -/
theorem chunks_ne_nil (uniform : Uniform geometry height tree) : tree.chunks ≠ [] := by
  induction uniform with
  | leaf _ _ filled _ => exact filled
  | node _ _ filled _ _ ih =>
      obtain ⟨child, rest, rfl⟩ := List.exists_cons_of_ne_nil filled
      exact List.append_ne_nil_of_left_ne_nil (ih child List.mem_cons_self) _

theorem makeLeaf {chunks : List α} (filled : chunks ≠ [])
    (fits : chunks.length ≤ geometry.branching) :
    Uniform geometry 0 (makeLeaf geometry chunks) :=
  .leaf rfl rfl filled fits

theorem makeNode {children : List (Tree α)}
    (uniform : ∀ child ∈ children, Uniform geometry height child) (filled : children ≠ [])
    (fits : children.length ≤ geometry.branching) :
    Uniform geometry (height + 1) (makeNode geometry children) := by
  have lengths := total_lengths fun child member => (uniform child member).length_eq
  have heights := heightAbove_of_uniform filled fun child member => (uniform child member).height_eq
  exact .node (lengths.trans (Chunk.total_lengths _).symm) heights filled fits uniform

/-- A uniform leaf has height zero and chunks in its slots, as many as fit. -/
theorem chunks {measure : Measure} {chunks : List α}
    (uniform : Uniform geometry height (.leaf measure chunks)) :
    height = 0 ∧ chunks ≠ [] ∧ chunks.length ≤ geometry.branching := by
  cases uniform with
  | leaf _ _ filled fits => exact ⟨rfl, filled, fits⟩

/-- The trees in the slots of a uniform node are one lower. -/
theorem children {measure : Measure} {children : List (Tree α)}
    (uniform : Uniform geometry height (.node measure children)) :
    ∃ below, height = below + 1 ∧ children ≠ [] ∧ children.length ≤ geometry.branching ∧
      ∀ child ∈ children, Uniform geometry below child := by
  cases uniform with
  | node _ _ filled fits uniform => exact ⟨_, rfl, filled, fits, uniform⟩

end Uniform

/-- What can be said of trees by their height: it is true of leaves and nodes whose slots were
filled with what it is true of, and of a node only if it is true one lower in the slots. -/
structure Graded (geometry : Geometry) (holds : Nat → Tree α → Prop) : Prop where
  makeLeaf {chunks : List α} (filled : chunks ≠ []) (fits : chunks.length ≤ geometry.branching) :
    holds 0 (makeLeaf geometry chunks)
  makeNode {height : Nat} {children : List (Tree α)}
    (below : ∀ child ∈ children, holds height child) (filled : children ≠ [])
    (fits : children.length ≤ geometry.branching) : holds (height + 1) (makeNode geometry children)
  height_leaf {height : Nat} {measure : Measure} {chunks : List α}
    (leaf : holds height (.leaf measure chunks)) : height = 0
  children {height : Nat} {measure : Measure} {children : List (Tree α)}
    (node : holds height (.node measure children)) :
    ∃ below, height = below + 1 ∧ children ≠ [] ∧ ∀ child ∈ children, holds below child

/-- It is true one lower of the trees in the slots of a tree. -/
theorem Graded.forall_children {holds : Nat → Tree α → Prop} (graded : Graded geometry holds)
    (whole : holds (height + 1) tree) : ∀ child ∈ tree.children, holds height child := by
  cases tree with
  | leaf measure chunks => exact absurd (graded.height_leaf whole) (Nat.succ_ne_zero height)
  | node measure children =>
      obtain ⟨below, same, _, under⟩ := graded.children whole
      obtain rfl := Nat.succ.inj same
      exact under

/-- To be uniform is a property that is built up level by level. -/
theorem graded_uniform (geometry : Geometry) :
    Graded geometry (Uniform geometry : Nat → Tree α → Prop) where
  makeLeaf := .makeLeaf
  makeNode := .makeNode
  height_leaf uniform := uniform.chunks.1
  children uniform := by
    obtain ⟨below, height, filled, _, under⟩ := uniform.children
    exact ⟨below, height, filled, under⟩

namespace WellFormed

/-- A well-formed tree that has an element is not the empty leaf. -/
theorem exists_uniform (wellFormed : WellFormed geometry tree) (filled : tree.length ≠ 0) :
    ∃ height, Uniform geometry height tree ∧ tree.children.length ≠ 1 := by
  cases wellFormed with
  | empty => exact absurd rfl filled
  | uniform uniform branches => exact ⟨_, uniform, branches⟩

end WellFormed

end Tree
end GraphemeRope
