import GraphemeRope.Proofs.Tree.Build
import GraphemeRope.Proofs.Tree.Counted

/-! # Trees with leaves at one depth

Less than of a uniform tree can be asked of a tree: that its leaves lie at one depth, or that every
node has a tree below it. A tree is *leveled* if it fulfils both and no leaf or node has more slots
than the geometry allows. Its leaves may be empty, and nothing is said of what it remembers; but if
it is made, it remembers the depth of its leaves as its height. Leveled siblings of one depth are
stacked to a leveled tree (`GraphemeRope.Tree.exists_leveled_ofSiblings`), and two of them to one
that is at most one higher (`GraphemeRope.Tree.leveled_ofSiblings_of_le_two`).
-/

namespace GraphemeRope
namespace Tree

variable {α ε : Type}

/-- Whether all leaves of a tree lie at one depth. Below a node without trees there are none. -/
inductive LeavesAt : Nat → Tree α → Prop where
  | leaf {measure : Measure} {chunks : List α} : LeavesAt 0 (.leaf measure chunks)
  | node {depth : Nat} {measure : Measure} {children : List (Tree α)}
      (below : ∀ child ∈ children, LeavesAt depth child) :
      LeavesAt (depth + 1) (.node measure children)

/-- Whether every node of a tree has a tree below it. -/
inductive Grounded : Tree α → Prop where
  | leaf {measure : Measure} {chunks : List α} : Grounded (.leaf measure chunks)
  | node {measure : Measure} {children : List (Tree α)} (filled : children ≠ [])
      (below : ∀ child ∈ children, Grounded child) : Grounded (.node measure children)

/-- Whether all leaves of a tree lie at one depth, every node has a tree below it, and no leaf or
node has more slots than the geometry allows. -/
inductive Leveled (geometry : Geometry) : Nat → Tree α → Prop where
  | leaf {measure : Measure} {chunks : List α} (fits : chunks.length ≤ geometry.branching) :
      Leveled geometry 0 (.leaf measure chunks)
  | node {depth : Nat} {measure : Measure} {children : List (Tree α)} (filled : children ≠ [])
      (fits : children.length ≤ geometry.branching)
      (below : ∀ child ∈ children, Leveled geometry depth child) :
      Leveled geometry (depth + 1) (.node measure children)

/-- Whether the root of a tree is a leaf or has at least two trees below it. -/
def IsCollapsed : Tree α → Prop
  | .leaf _ _ => True
  | .node _ children => 2 ≤ children.length

/-- The leaves of the trees in the slots of a node lie one level nearer. -/
theorem LeavesAt.children {depth : Nat} {measure : Measure} {children : List (Tree α)}
    (leaves : LeavesAt depth (.node measure children)) :
    ∃ below, depth = below + 1 ∧ ∀ child ∈ children, LeavesAt below child := by
  cases leaves with
  | node below => exact ⟨_, rfl, below⟩

/-- A grounded node has trees below it, all of them grounded. -/
theorem Grounded.children {measure : Measure} {children : List (Tree α)}
    (grounded : Grounded (.node measure children)) :
    children ≠ [] ∧ ∀ child ∈ children, Grounded child := by
  cases grounded with
  | node filled below => exact ⟨filled, below⟩

/-- A leveled node has trees in some of its slots, all of them leveled one level below. -/
theorem Leveled.children {geometry : Geometry} {depth : Nat} {measure : Measure}
    {children : List (Tree α)} (leveled : Leveled geometry depth (.node measure children)) :
    ∃ below, depth = below + 1 ∧ children ≠ [] ∧ children.length ≤ geometry.branching ∧
      ∀ child ∈ children, Leveled geometry below child := by
  cases leveled with
  | node filled fits below => exact ⟨_, rfl, filled, fits, below⟩

/-- A leveled leaf lies at depth zero and has no more chunks than slots. -/
theorem Leveled.chunks {geometry : Geometry} {depth : Nat} {measure : Measure} {chunks : List α}
    (leveled : Leveled geometry depth (.leaf measure chunks)) :
    depth = 0 ∧ chunks.length ≤ geometry.branching := by
  cases leveled with
  | leaf fits => exact ⟨rfl, fits⟩

section Collapse

variable {tree : Tree α}

/-- A collapsed root is a leaf or branches. -/
theorem isCollapsed_collapse (tree : Tree α) : tree.collapse.IsCollapsed := by
  induction tree using collapse.induct with
  | case1 measure chunks => trivial
  | case2 measure => trivial
  | case3 measure only ih => exact ih
  | case4 measure first second rest => exact Nat.le_add_left 2 rest.length

/-- Leaves at one depth stay so under a collapsed root. -/
theorem LeavesAt.collapse {depth : Nat} (leaves : LeavesAt depth tree) :
    ∃ below, LeavesAt below tree.collapse := by
  induction tree using collapse.induct generalizing depth with
  | case1 measure chunks => exact ⟨depth, leaves⟩
  | case2 measure => exact ⟨0, .leaf⟩
  | case3 measure only ih =>
      obtain ⟨below, _, under⟩ := leaves.children
      exact ih (under only List.mem_cons_self)
  | case4 measure first second rest => exact ⟨depth, leaves⟩

theorem Grounded.collapse (grounded : Grounded tree) : Grounded tree.collapse := by
  induction tree using collapse.induct with
  | case1 measure chunks => exact grounded
  | case2 measure => exact .leaf
  | case3 measure only ih => exact ih (grounded.children.2 only List.mem_cons_self)
  | case4 measure first second rest => exact grounded

variable [Chunk α ε]

theorem Counted.collapse (counted : Counted tree) : Counted tree.collapse := by
  induction tree using collapse.induct with
  | case1 measure chunks => exact counted
  | case2 measure => exact .leaf rfl
  | case3 measure only ih => exact ih (counted.forall_children only List.mem_cons_self)
  | case4 measure first second rest => exact counted

end Collapse

section Made

variable [Chunk α ε] {geometry : Geometry} {depth : Nat} {tree : Tree α}

/-- To be leveled is a property that is built up level by level. -/
theorem graded_leveled (geometry : Geometry) :
    Graded geometry (Leveled geometry : Nat → Tree α → Prop) where
  makeLeaf _ fits := .leaf fits
  makeNode below filled fits := .node filled fits below
  height_leaf leveled := leveled.chunks.1
  children leveled := by
    obtain ⟨below, height, filled, _, under⟩ := leveled.children
    exact ⟨below, height, filled, under⟩

/-- What can be said of trees by their height can be said of those that are made. -/
theorem Graded.of_made {holds : Nat → Tree α → Prop} (graded : Graded geometry holds) :
    Graded geometry fun height tree => Made geometry tree ∧ holds height tree where
  makeLeaf filled fits := ⟨.leaf _, graded.makeLeaf filled fits⟩
  makeNode below filled fits :=
    ⟨.node _ fun child member => (below child member).1,
      graded.makeNode (fun child member => (below child member).2) filled fits⟩
  height_leaf whole := graded.height_leaf whole.2
  children whole := by
    obtain ⟨below, height, filled, under⟩ := graded.children whole.2
    exact ⟨below, height, filled, fun child member =>
      ⟨whole.1.children child member, under child member⟩⟩

/-- **Remembered heights.** A made tree remembers the depth of its leaves. -/
theorem Leveled.height_eq (leveled : Leveled geometry depth tree) (made : Made geometry tree) :
    tree.height = depth := by
  induction made generalizing depth with
  | leaf chunks => exact leveled.chunks.1.symm
  | node children made ih =>
      obtain ⟨below, rfl, filled, _, under⟩ := leveled.children
      exact heightAbove_of_uniform filled fun child member => ih child member (under child member)

end Made

section Uniform

variable [Chunk α ε] {geometry : Geometry} {height : Nat} {tree : Tree α}

/-- A uniform tree remembers its lengths rightly. -/
theorem Uniform.counted (uniform : Uniform geometry height tree) : Counted tree := by
  induction uniform with
  | leaf length_eq _ _ _ => exact .leaf length_eq
  | node length_eq _ _ _ below ih =>
      have lengths := total_lengths fun child member => (below child member).length_eq
      exact .node (length_eq.trans ((Chunk.total_lengths _).trans lengths.symm)) ih

theorem Uniform.grounded (uniform : Uniform geometry height tree) : Grounded tree := by
  induction uniform with
  | leaf _ _ _ _ => exact .leaf
  | node _ _ filled _ _ ih => exact .node filled ih

/-- A well-formed tree remembers its lengths rightly. -/
theorem WellFormed.counted (wellFormed : WellFormed geometry tree) : Counted tree := by
  cases wellFormed with
  | empty => exact .leaf rfl
  | uniform uniform _ => exact uniform.counted

theorem WellFormed.grounded (wellFormed : WellFormed geometry tree) : Grounded tree := by
  cases wellFormed with
  | empty => exact .leaf
  | uniform uniform _ => exact uniform.grounded

end Uniform

section Siblings

variable {geometry : Geometry} {depth : Nat} {siblings : List (Tree α)}
  (leveled : ∀ sibling ∈ siblings, Leveled geometry depth sibling)
include leveled

/-- Stacking siblings of one depth keeps the leaves at one depth. -/
theorem exists_leveled_ofSiblings [Chunk α ε] :
    ∃ top, Leveled geometry top (ofSiblings geometry siblings) := by
  induction siblings using ofSiblings.induct geometry generalizing depth with
  | case1 =>
      rw [ofSiblings]
      exact ⟨0, .leaf (Nat.zero_le _)⟩
  | case2 only =>
      rw [ofSiblings]
      exact ⟨depth, leveled only List.mem_cons_self⟩
  | case3 first second rest ih =>
      rw [ofSiblings]
      exact ih ((graded_leveled geometry).regroup leveled)

/-- One sibling is the tree itself, and two get one parent. -/
theorem leveled_ofSiblings_of_le_two (filled : siblings ≠ []) (few : siblings.length ≤ 2) :
    Leveled geometry depth (ofSiblings geometry siblings) ∨
      Leveled geometry (depth + 1) (ofSiblings geometry siblings) := by
  match siblings, filled, few with
  | [only], _, _ =>
      rw [ofSiblings]
      exact .inl (leveled only List.mem_cons_self)
  | [first, second], _, _ =>
      have fits : [first, second].length ≤ geometry.branching := geometry.two_le_branching
      have root : regroup geometry [first, second] = [makeNode geometry [first, second]] :=
        congrArg (List.map _) (groups_of_length_le (List.cons_ne_nil _ _) fits)
      rw [ofSiblings, root, ofSiblings]
      exact .inr (.node (List.cons_ne_nil _ _) fits leveled)

end Siblings

end Tree
end GraphemeRope
