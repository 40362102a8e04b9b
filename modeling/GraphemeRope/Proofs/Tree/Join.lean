import GraphemeRope.Proofs.Tree.Cut
import GraphemeRope.Tree.Join

/-! # Joining trees

The tree that joins two made trees has the chunks of the one and then those of the other, unless a
tree without elements is left away (`GraphemeRope.Tree.elements_append`). If the trees are uniform,
the siblings that replace the higher one are uniform and of its height, whichever edge the way down
follows, so that the joined tree is well-formed (`GraphemeRope.Tree.wellFormed_append`).
-/

namespace GraphemeRope
namespace Tree

variable {α ε : Type} [Chunk α ε] {geometry : Geometry}

/-- Only a node remembers a positive height. -/
theorem Made.chunksOfAll_children {tree : Tree α} (made : Made geometry tree)
    (high : 0 < tree.height) : chunksOfAll tree.children = tree.chunks := by
  cases made with
  | leaf chunks => exact absurd high (Nat.lt_irrefl 0)
  | node children _ => rfl

/-- What is in the slots of a made tree is made. -/
theorem Made.forall_children {tree : Tree α} (made : Made geometry tree) :
    ∀ child ∈ tree.children, Made geometry child := by
  cases made with
  | leaf _ => exact List.forall_mem_nil _
  | node _ made => exact made

/-- A made node remembers a positive height. -/
theorem Made.height_pos {measure : Measure} {children : List (Tree α)}
    (made : Made geometry (.node measure children)) : 0 < measure.height := by
  cases made with
  | node _ _ => exact heightAbove_pos children

/-- The trees in the slots of a made node remember lesser heights. -/
theorem Made.height_lt {measure : Measure} {children : List (Tree α)}
    (made : Made geometry (.node measure children)) :
    ∀ child ∈ children, child.height < measure.height := by
  cases made with
  | node _ _ => exact fun child member => height_lt_heightAbove member

section Prepend

variable (front : List α)

/-- Prepended chunks come before all that the tree has. -/
theorem chunksOfAll_prepended (geometry : Geometry) (tree : Tree α) :
    chunksOfAll (tree.prepended geometry front) = front ++ tree.chunks := by
  induction tree with
  | leaf measure chunks => rw [prepended, chunksOfAll_leaves, chunks_leaf]
  | node measure children ih =>
      rw [prepended, chunksOfAll_regroup, chunks_node]
      cases children with
      | nil => rfl
      | cons first rest =>
          rw [prependedFirst, chunksOfAll_append, ih first List.mem_cons_self, chunksOfAll_cons,
            List.append_assoc]

/-- What holds of a row, and of the siblings that replace its first tree, holds of the row that is
left. -/
theorem forall_prependedFirst {property : Tree α → Prop} {children : List (Tree α)}
    (alone : children = [] → property (makeLeaf geometry front))
    (kept : ∀ child ∈ children, property child)
    (put : ∀ child ∈ children, ∀ sibling ∈ child.prepended geometry front, property sibling) :
    ∀ sibling ∈ prependedFirst geometry front children, property sibling := by
  cases children with
  | nil => exact List.forall_mem_singleton.mpr (alone rfl)
  | cons first rest =>
      rw [prependedFirst, List.forall_mem_append]
      rw [List.forall_mem_cons] at kept put
      exact ⟨put.1, kept.2⟩

/-- What replaces a made tree when chunks are put before it is made. -/
theorem made_prepended {tree : Tree α} (made : Made geometry tree) :
    ∀ sibling ∈ tree.prepended geometry front, Made geometry sibling := by
  induction tree with
  | leaf measure chunks => exact made_leaves geometry _
  | node measure children ih =>
      apply made_regroup
      refine forall_prependedFirst front ?_ ?_ ?_
      · intro _
        exact .leaf front
      · exact made.children
      · intro child member
        exact ih child member (made.children child member)

/-- A graded property holds, at the height of the tree, of what replaces it when chunks are put
before it. -/
theorem Graded.prepended {holds : Nat → Tree α → Prop} (graded : Graded geometry holds)
    {height : Nat} {tree : Tree α} (whole : holds height tree) :
    ∀ sibling ∈ tree.prepended geometry front, holds height sibling := by
  induction tree generalizing height with
  | leaf measure chunks =>
      obtain rfl := graded.height_leaf whole
      exact graded.leaves _
  | node measure children ih =>
      obtain ⟨below, rfl, filled, under⟩ := graded.children whole
      apply graded.regroup
      refine forall_prependedFirst front ?_ ?_ ?_
      · intro nothing
        exact absurd nothing filled
      · exact under
      · intro child member
        exact ih child member (under child member)

end Prepend

section Extend

variable {rear : Tree α}

/-- Only the last tree of a row changes. -/
theorem extendedLast_concat (geometry : Geometry) (rear : Tree α) (front : List (Tree α))
    (last : Tree α) :
    extendedLast geometry rear (front ++ [last]) = front ++ extended geometry rear last := by
  induction front with
  | nil => rfl
  | cons first rest ih =>
      obtain ⟨next, later, more⟩ := List.exists_cons_of_ne_nil
        (List.append_ne_nil_of_right_ne_nil rest (List.cons_ne_nil last []))
      rw [List.cons_append, more, extendedLast, ← more, ih, List.cons_append]

/-- The chunks of a tree that is put behind another come after all that the other has. -/
theorem chunksOfAll_extended (madeRear : Made geometry rear) {tree : Tree α}
    (made : Made geometry tree) :
    chunksOfAll (extended geometry rear tree) = tree.chunks ++ rear.chunks := by
  induction tree with
  | leaf measure chunks => rw [extended, chunksOfAll_prepended, chunks_leaf]
  | node measure children ih =>
      have under := made.children
      have high := made.height_pos
      rw [extended, chunks_node]
      split
      · next level =>
          rw [chunksOfAll_regroup, chunksOfAll_append, madeRear.chunksOfAll_children (level ▸ high)]
      · rw [chunksOfAll_regroup]
        rcases eq_nil_or_exists_last children with rfl | ⟨front, last, rfl⟩
        · rw [extendedLast, chunksOfAll_cons, chunksOfAll_nil, List.append_nil, List.nil_append]
        · rw [extendedLast_concat, chunksOfAll_append, chunksOfAll_append, chunksOfAll_cons,
            chunksOfAll_nil, List.append_nil,
            ih last List.mem_concat_self (under last List.mem_concat_self), List.append_assoc]

/-- What holds of a row, and of the siblings that replace its last tree, holds of the row that is
left. -/
theorem forall_extendedLast {property : Tree α → Prop} {children : List (Tree α)}
    (alone : children = [] → property rear) (kept : ∀ child ∈ children, property child)
    (put : ∀ child ∈ children, ∀ sibling ∈ extended geometry rear child, property sibling) :
    ∀ sibling ∈ extendedLast geometry rear children, property sibling := by
  rcases eq_nil_or_exists_last children with rfl | ⟨front, last, rfl⟩
  · exact List.forall_mem_singleton.mpr (alone rfl)
  · rw [extendedLast_concat, List.forall_mem_append]
    rw [List.forall_mem_append] at kept
    exact ⟨kept.1, put last List.mem_concat_self⟩

/-- What replaces a made tree when another is put behind it is made. -/
theorem made_extended (madeRear : Made geometry rear) {tree : Tree α}
    (made : Made geometry tree) :
    ∀ sibling ∈ extended geometry rear tree, Made geometry sibling := by
  induction tree with
  | leaf measure chunks => exact made_prepended chunks madeRear
  | node measure children ih =>
      have under := made.children
      unfold extended
      split
      · apply made_regroup
        exact List.forall_mem_append.mpr ⟨under, madeRear.forall_children⟩
      · apply made_regroup
        refine forall_extendedLast ?_ under ?_
        · intro _
          exact madeRear
        · intro child member
          exact ih child member (under child member)

variable {low height : Nat}

/-- The siblings that replace a tree when another is put after it are of its height, if that is not
less than the height of the other. -/
theorem Graded.extended {holds : Nat → Tree α → Prop} (graded : Graded geometry holds)
    (height_eq : ∀ {height tree}, holds height tree → tree.height = height)
    (holdsRear : holds low rear) {tree : Tree α} (whole : holds height tree)
    (lower : low ≤ height) :
    ∀ sibling ∈ extended geometry rear tree, holds height sibling := by
  induction tree generalizing height with
  | leaf measure chunks =>
      obtain rfl := graded.height_leaf whole
      obtain rfl := Nat.le_zero.mp lower
      exact graded.prepended chunks holdsRear
  | node measure children ih =>
      have level : measure.height = height := height_eq whole
      obtain ⟨below, rfl, filled, under⟩ := graded.children whole
      rw [Tree.extended, level, height_eq holdsRear]
      split
      · next same =>
          subst same
          apply graded.regroup
          exact List.forall_mem_append.mpr ⟨under, graded.forall_children holdsRear⟩
      · next different =>
          apply graded.regroup
          refine forall_extendedLast ?_ under ?_
          · intro nothing
            exact absurd nothing filled
          · intro child member
            exact ih child member (under child member) (by omega)

/-- What replaces a uniform tree when a lower one is put behind it is uniform, at the same
height. -/
theorem uniform_extended (uniformRear : Uniform geometry low rear) {tree : Tree α}
    (uniform : Uniform geometry height tree) (lower : low ≤ height) :
    ∀ sibling ∈ extended geometry rear tree, Uniform geometry height sibling :=
  (graded_uniform geometry).extended Uniform.height_eq uniformRear uniform lower

/-- A tree that has a chunk is replaced by at least one when another is put behind it. -/
theorem extended_ne_nil (madeRear : Made geometry rear) {tree : Tree α}
    (made : Made geometry tree) (filled : tree.chunks ≠ []) :
    extended geometry rear tree ≠ [] := by
  intro nothing
  have kept := chunksOfAll_extended madeRear made
  rw [nothing, chunksOfAll_nil] at kept
  exact filled (List.append_eq_nil_iff.mp kept.symm).1

/-- A row of uniform trees does not get shorter when a tree is put behind its last. -/
theorem length_le_length_extendedLast (madeRear : Made geometry rear) {children : List (Tree α)}
    (made : ∀ child ∈ children, Made geometry child)
    (uniform : ∀ child ∈ children, Uniform geometry height child) :
    children.length ≤ (extendedLast geometry rear children).length := by
  rcases eq_nil_or_exists_last children with rfl | ⟨front, last, rfl⟩
  · exact Nat.zero_le _
  · have several := extended_ne_nil madeRear (made last List.mem_concat_self)
      (uniform last List.mem_concat_self).chunks_ne_nil
    have positive := List.length_pos_iff.mpr several
    simp only [extendedLast_concat, List.length_append, List.length_singleton]
    omega

end Extend

section Precede

variable {front : Tree α}

/-- The chunks of a tree that is put in front of another come before all that the other has. -/
theorem chunksOfAll_preceded (madeFront : Made geometry front) {tree : Tree α}
    (made : Made geometry tree) :
    chunksOfAll (preceded geometry front tree) = front.chunks ++ tree.chunks := by
  induction tree with
  | leaf measure chunks => rw [preceded, chunksOfAll_extended made madeFront]
  | node measure children ih =>
      have under := made.children
      have high := made.height_pos
      rw [preceded, chunks_node]
      split
      · next level =>
          rw [chunksOfAll_regroup, chunksOfAll_append,
            madeFront.chunksOfAll_children (level ▸ high)]
      · rw [chunksOfAll_regroup]
        cases children with
        | nil => rfl
        | cons first rest =>
            rw [precededFirst, chunksOfAll_append,
              ih first List.mem_cons_self (under first List.mem_cons_self), chunksOfAll_cons,
              List.append_assoc]

/-- What holds of a row, and of the siblings that replace its first tree, holds of the row that is
left. -/
theorem forall_precededFirst {property : Tree α → Prop} {children : List (Tree α)}
    (alone : children = [] → property front) (kept : ∀ child ∈ children, property child)
    (put : ∀ child ∈ children, ∀ sibling ∈ preceded geometry front child, property sibling) :
    ∀ sibling ∈ precededFirst geometry front children, property sibling := by
  cases children with
  | nil => exact List.forall_mem_singleton.mpr (alone rfl)
  | cons first rest =>
      rw [precededFirst, List.forall_mem_append]
      rw [List.forall_mem_cons] at kept put
      exact ⟨put.1, kept.2⟩

/-- What replaces a made tree when another is put in front of it is made. -/
theorem made_preceded (madeFront : Made geometry front) {tree : Tree α}
    (made : Made geometry tree) :
    ∀ sibling ∈ preceded geometry front tree, Made geometry sibling := by
  induction tree with
  | leaf measure chunks => exact made_extended made madeFront
  | node measure children ih =>
      have under := made.children
      unfold preceded
      split
      · apply made_regroup
        exact List.forall_mem_append.mpr ⟨madeFront.forall_children, under⟩
      · apply made_regroup
        refine forall_precededFirst ?_ under ?_
        · intro _
          exact madeFront
        · intro child member
          exact ih child member (under child member)

variable {low height : Nat}

/-- The siblings that replace a tree when another is put before it are of its height, if that is not
less than the height of the other. -/
theorem Graded.preceded {holds : Nat → Tree α → Prop} (graded : Graded geometry holds)
    (height_eq : ∀ {height tree}, holds height tree → tree.height = height)
    (holdsFront : holds low front) {tree : Tree α} (whole : holds height tree)
    (lower : low ≤ height) :
    ∀ sibling ∈ preceded geometry front tree, holds height sibling := by
  induction tree generalizing height with
  | leaf measure chunks =>
      obtain rfl := graded.height_leaf whole
      obtain rfl := Nat.le_zero.mp lower
      exact graded.extended height_eq whole holdsFront (Nat.le_refl 0)
  | node measure children ih =>
      have level : measure.height = height := height_eq whole
      obtain ⟨below, rfl, filled, under⟩ := graded.children whole
      rw [Tree.preceded, level, height_eq holdsFront]
      split
      · next same =>
          subst same
          apply graded.regroup
          exact List.forall_mem_append.mpr ⟨graded.forall_children holdsFront, under⟩
      · next different =>
          apply graded.regroup
          refine forall_precededFirst ?_ under ?_
          · intro nothing
            exact absurd nothing filled
          · intro child member
            exact ih child member (under child member) (by omega)

/-- What replaces a uniform tree when a lower one is put in front of it is uniform, at the same
height. -/
theorem uniform_preceded (uniformFront : Uniform geometry low front) {tree : Tree α}
    (uniform : Uniform geometry height tree) (lower : low ≤ height) :
    ∀ sibling ∈ preceded geometry front tree, Uniform geometry height sibling :=
  (graded_uniform geometry).preceded Uniform.height_eq uniformFront uniform lower

/-- A tree that has a chunk is replaced by at least one when another is put in front of it. -/
theorem preceded_ne_nil (madeFront : Made geometry front) {tree : Tree α}
    (made : Made geometry tree) (filled : tree.chunks ≠ []) :
    preceded geometry front tree ≠ [] := by
  intro nothing
  have kept := chunksOfAll_preceded madeFront made
  rw [nothing, chunksOfAll_nil] at kept
  exact filled (List.append_eq_nil_iff.mp kept.symm).2

/-- A row of uniform trees does not get shorter when a tree is put in front of its first. -/
theorem length_le_length_precededFirst (madeFront : Made geometry front)
    {children : List (Tree α)} (made : ∀ child ∈ children, Made geometry child)
    (uniform : ∀ child ∈ children, Uniform geometry height child) :
    children.length ≤ (precededFirst geometry front children).length := by
  cases children with
  | nil => exact Nat.zero_le _
  | cons first rest =>
      have several := preceded_ne_nil madeFront (made first List.mem_cons_self)
        (uniform first List.mem_cons_self).chunks_ne_nil
      have positive := List.length_pos_iff.mpr several
      simp only [precededFirst, List.length_append, List.length_cons]
      omega

end Precede

section Append

variable {left right : Tree α}

/-- The siblings that a joined tree stands on, unless one of the trees has no elements. -/
theorem append_of_filled (leftFilled : ¬left.isEmpty = true) (rightFilled : ¬right.isEmpty = true) :
    append geometry left right = ofSiblings geometry
      (if right.height ≤ left.height then extended geometry right left
        else preceded geometry left right) := by
  rw [append, if_neg rightFilled, if_neg leftFilled]
  split
  · rfl
  · rfl

/-- Two trees with elements are joined by joining their chunks. -/
theorem chunks_append_of_filled (madeLeft : Made geometry left) (madeRight : Made geometry right)
    (leftFilled : ¬left.isEmpty = true) (rightFilled : ¬right.isEmpty = true) :
    (append geometry left right).chunks = left.chunks ++ right.chunks := by
  rw [append_of_filled leftFilled rightFilled, chunks_ofSiblings]
  split
  · exact chunksOfAll_extended madeRight madeLeft
  · exact chunksOfAll_preceded madeLeft madeRight

/-- **Joining.** The joined tree has the elements of the two trees. -/
theorem elements_append (madeLeft : Made geometry left) (madeRight : Made geometry right) :
    (append geometry left right).elements = left.elements ++ right.elements := by
  by_cases rightEmpty : right.isEmpty = true
  · rw [append, if_pos rightEmpty, madeRight.isEmpty_iff.mp rightEmpty, List.append_nil]
  · by_cases leftEmpty : left.isEmpty = true
    · rw [append, if_neg rightEmpty, if_pos leftEmpty, madeLeft.isEmpty_iff.mp leftEmpty,
        List.nil_append]
    · simp only [elements_eq_elementsOf,
        chunks_append_of_filled madeLeft madeRight leftEmpty rightEmpty, Chunk.elementsOf_append]

/-- The chunks of a joined tree are chunks of the two trees. -/
theorem forall_chunks_append {property : α → Prop} (madeLeft : Made geometry left)
    (madeRight : Made geometry right) (first : ∀ chunk ∈ left.chunks, property chunk)
    (second : ∀ chunk ∈ right.chunks, property chunk) :
    ∀ chunk ∈ (append geometry left right).chunks, property chunk := by
  by_cases rightEmpty : right.isEmpty = true
  · rw [append, if_pos rightEmpty]
    exact first
  · by_cases leftEmpty : left.isEmpty = true
    · rw [append, if_neg rightEmpty, if_pos leftEmpty]
      exact second
    · rw [chunks_append_of_filled madeLeft madeRight leftEmpty rightEmpty,
        List.forall_mem_append]
      exact ⟨first, second⟩

/-- Made trees are joined to a made tree. -/
theorem made_append (madeLeft : Made geometry left) (madeRight : Made geometry right) :
    Made geometry (append geometry left right) := by
  unfold append
  split
  · exact madeLeft
  · split
    · exact madeRight
    · split
      · exact made_ofSiblings (made_extended madeRight madeLeft)
      · exact made_ofSiblings (made_preceded madeLeft madeRight)

variable {low height : Nat}

/-- A uniform tree that branches becomes a well-formed one when a lower one is put behind it. -/
theorem wellFormed_extended (madeLeft : Made geometry left) (madeRight : Made geometry right)
    (uniformRight : Uniform geometry low right) (uniform : Uniform geometry height left)
    (lower : low ≤ height) (branches : left.children.length ≠ 1) :
    WellFormed geometry (ofSiblings geometry (extended geometry right left)) := by
  have siblings := uniform_extended uniformRight uniform lower
  cases uniform with
  | leaf _ _ _ _ => exact wellFormed_ofSiblings_of_leaves siblings
  | @node below measure children _ level filled _ under =>
      have several := List.length_pos_iff.mpr filled
      have more := length_le_length_extendedLast madeRight madeLeft.children under
      rw [Tree.children] at branches
      rw [extended, level, uniformRight.height_eq]
      split
      · next same =>
          subst same
          have others := (graded_uniform geometry).forall_children uniformRight
          refine wellFormed_ofSiblings_regroup (List.forall_mem_append.mpr ⟨under, others⟩) ?_
          rw [List.length_append]
          omega
      · next different =>
          have inner : ∀ sibling ∈ extendedLast geometry right children,
              Uniform geometry below sibling := by
            refine forall_extendedLast ?_ under ?_
            · intro nothing
              exact absurd nothing filled
            · intro child member
              exact uniform_extended uniformRight (under child member) (by omega)
          exact wellFormed_ofSiblings_regroup inner (by omega)

/-- A uniform tree that branches becomes a well-formed one when a lower one is put in front of
it. -/
theorem wellFormed_preceded (madeLeft : Made geometry left) (madeRight : Made geometry right)
    (uniformLeft : Uniform geometry low left) (uniform : Uniform geometry height right)
    (lower : low ≤ height) (branches : right.children.length ≠ 1) :
    WellFormed geometry (ofSiblings geometry (preceded geometry left right)) := by
  have siblings := uniform_preceded uniformLeft uniform lower
  cases uniform with
  | leaf _ _ _ _ => exact wellFormed_ofSiblings_of_leaves siblings
  | @node below measure children _ level filled _ under =>
      have several := List.length_pos_iff.mpr filled
      have more := length_le_length_precededFirst madeLeft madeRight.children under
      rw [Tree.children] at branches
      rw [preceded, level, uniformLeft.height_eq]
      split
      · next same =>
          subst same
          have others := (graded_uniform geometry).forall_children uniformLeft
          refine wellFormed_ofSiblings_regroup (List.forall_mem_append.mpr ⟨others, under⟩) ?_
          rw [List.length_append]
          omega
      · next different =>
          have inner : ∀ sibling ∈ precededFirst geometry left children,
              Uniform geometry below sibling := by
            refine forall_precededFirst ?_ under ?_
            · intro nothing
              exact absurd nothing filled
            · intro child member
              exact uniform_preceded uniformLeft (under child member) (by omega)
          exact wellFormed_ofSiblings_regroup inner (by omega)

/-- **Joining keeps the shape.** The joined tree of two well-formed trees is well-formed. -/
theorem wellFormed_append (madeLeft : Made geometry left) (madeRight : Made geometry right)
    (wellFormedLeft : WellFormed geometry left) (wellFormedRight : WellFormed geometry right) :
    WellFormed geometry (append geometry left right) := by
  by_cases rightEmpty : right.isEmpty = true
  · rw [append, if_pos rightEmpty]
    exact wellFormedLeft
  · by_cases leftEmpty : left.isEmpty = true
    · rw [append, if_neg rightEmpty, if_pos leftEmpty]
      exact wellFormedRight
    · rw [append_of_filled leftEmpty rightEmpty]
      rw [isEmpty_iff] at leftEmpty rightEmpty
      obtain ⟨leftHeight, uniformLeft, leftBranches⟩ := wellFormedLeft.exists_uniform leftEmpty
      obtain ⟨rightHeight, uniformRight, rightBranches⟩ :=
        wellFormedRight.exists_uniform rightEmpty
      rw [uniformLeft.height_eq, uniformRight.height_eq]
      split
      · next lower =>
          exact wellFormed_extended madeLeft madeRight uniformRight uniformLeft lower leftBranches
      · next higher =>
          exact wellFormed_preceded madeLeft madeRight uniformLeft uniformRight
            (Nat.le_of_not_le higher) rightBranches

end Append

end Tree
end GraphemeRope
