import GraphemeRope.Proofs.Geometry
import GraphemeRope.Proofs.Tree.Shape
import GraphemeRope.Tree.Build

/-! # Building trees, in order and in shape

Putting siblings under parents, filling leaves, dropping roots with a single tree below them and
pushing a chunk all keep the chunks in order. They make trees with right measures, and well-formed
trees of uniform siblings. -/

namespace GraphemeRope
namespace Tree

variable {α ε : Type} {geometry : Geometry}

/-- Under parents the chunks stay as they are. -/
theorem chunksOfAll_regroup (geometry : Geometry) (siblings : List (Tree α)) :
    chunksOfAll (regroup geometry siblings) = chunksOfAll siblings := by
  have rows (rows : List (List (Tree α))) :
      chunksOfAll (rows.map (makeNode geometry)) = chunksOfAll rows.flatten := by
    induction rows with
    | nil => rfl
    | cons row rows ih =>
        rw [List.map_cons, chunksOfAll_cons, ih, chunks_makeNode, List.flatten_cons,
          chunksOfAll_append]
  rw [regroup, rows, flatten_groups]

/-- The tree over siblings has their chunks. -/
theorem chunks_ofSiblings (geometry : Geometry) (siblings : List (Tree α)) :
    (ofSiblings geometry siblings).chunks = chunksOfAll siblings := by
  induction siblings using ofSiblings.induct geometry with
  | case1 => rw [ofSiblings, chunks_empty, chunksOfAll_nil]
  | case2 only => rw [ofSiblings, chunksOfAll_cons, chunksOfAll_nil, List.append_nil]
  | case3 first second rest ih => rw [ofSiblings, ih, chunksOfAll_regroup]

/-- A collapsed root has lost no chunk. -/
theorem chunks_collapse (tree : Tree α) : tree.collapse.chunks = tree.chunks := by
  induction tree using collapse.induct with
  | case1 measure chunks => rfl
  | case2 measure => rfl
  | case3 measure only ih =>
      rw [collapse, ih, chunks_node, chunksOfAll_cons, chunksOfAll_nil, List.append_nil]
  | case4 measure first second rest => rfl

/-- A row of siblings that fits under one parent is what is below it. -/
theorem children_of_regroup {siblings : List (Tree α)} {parent : Tree α}
    (single : regroup geometry siblings = [parent]) : parent.children = siblings := by
  obtain ⟨group, grouped, rfl⟩ := List.map_eq_singleton_iff.mp single
  exact (groups_eq_singleton grouped).symm

variable [Chunk α ε]

/-- Parents of made trees are made. -/
theorem made_regroup {siblings : List (Tree α)} (made : ∀ tree ∈ siblings, Made geometry tree) :
    ∀ tree ∈ regroup geometry siblings, Made geometry tree := by
  intro tree member
  obtain ⟨group, grouped, rfl⟩ := List.mem_map.mp member
  exact .node group fun child inside => made child (mem_of_mem_groups grouped inside)

/-- The tree over made siblings is made. -/
theorem made_ofSiblings {siblings : List (Tree α)} (made : ∀ tree ∈ siblings, Made geometry tree) :
    Made geometry (ofSiblings geometry siblings) := by
  induction siblings using ofSiblings.induct geometry with
  | case1 =>
      unfold ofSiblings
      exact made_empty
  | case2 only =>
      unfold ofSiblings
      exact made only List.mem_cons_self
  | case3 first second rest ih =>
      unfold ofSiblings
      exact ih (made_regroup made)

/-- Parents are one higher than the siblings below them. -/
theorem Graded.regroup {holds : Nat → Tree α → Prop} (graded : Graded geometry holds) {height : Nat}
    {siblings : List (Tree α)} (below : ∀ tree ∈ siblings, holds height tree) :
    ∀ tree ∈ regroup geometry siblings, holds (height + 1) tree := by
  intro tree member
  obtain ⟨group, grouped, rfl⟩ := List.mem_map.mp member
  have size := length_of_mem_groups geometry.branching_pos grouped
  exact graded.makeNode (fun child inside => below child (mem_of_mem_groups grouped inside))
    (List.length_pos_iff.mp size.1) size.2

/-- Parents of uniform trees are uniform, one level higher. -/
theorem uniform_regroup {height : Nat} {siblings : List (Tree α)}
    (uniform : ∀ tree ∈ siblings, Uniform geometry height tree) :
    ∀ tree ∈ regroup geometry siblings, Uniform geometry (height + 1) tree :=
  (graded_uniform geometry).regroup uniform

/-- **From siblings to a tree.** Uniform siblings of one height make a well-formed tree, if a single
one of them is one already. -/
theorem wellFormed_ofSiblings {height : Nat} {siblings : List (Tree α)}
    (uniform : ∀ tree ∈ siblings, Uniform geometry height tree)
    (branches : ∀ only, siblings = [only] → only.children.length ≠ 1) :
    WellFormed geometry (ofSiblings geometry siblings) := by
  induction siblings using ofSiblings.induct geometry generalizing height with
  | case1 =>
      unfold ofSiblings
      exact .empty
  | case2 only =>
      unfold ofSiblings
      exact .uniform (uniform only List.mem_cons_self) (branches only rfl)
  | case3 first second rest ih =>
      unfold ofSiblings
      refine ih (uniform_regroup uniform) fun parent single => ?_
      rw [children_of_regroup single]
      simp only [List.length_cons]
      omega

/-- Two or more uniform siblings put under parents make a well-formed tree. -/
theorem wellFormed_ofSiblings_regroup {height : Nat} {siblings : List (Tree α)}
    (uniform : ∀ tree ∈ siblings, Uniform geometry height tree)
    (several : 2 ≤ siblings.length) :
    WellFormed geometry (ofSiblings geometry (regroup geometry siblings)) := by
  refine wellFormed_ofSiblings (uniform_regroup uniform) fun parent single => ?_
  rw [children_of_regroup single]
  omega

theorem made_collapse {tree : Tree α} (made : Made geometry tree) :
    Made geometry tree.collapse := by
  induction tree using collapse.induct with
  | case1 measure chunks => exact made
  | case2 measure => exact made_empty
  | case3 measure only ih => exact ih (made.children only List.mem_cons_self)
  | case4 measure first second rest => exact made

/-- A uniform tree with its root collapsed is well-formed. -/
theorem wellFormed_collapse {height : Nat} {tree : Tree α}
    (uniform : Uniform geometry height tree) : WellFormed geometry tree.collapse := by
  induction tree using collapse.induct generalizing height with
  | case1 measure chunks => exact .uniform uniform Nat.zero_ne_one
  | case2 measure => exact .empty
  | case3 measure only ih =>
      obtain ⟨_, _, _, _, below⟩ := uniform.children
      exact ih (below only List.mem_cons_self)
  | case4 measure first second rest =>
      refine .uniform uniform ?_
      rw [collapse, Tree.children, List.length_cons, List.length_cons]
      omega

theorem WellFormed.collapse {tree : Tree α} (wellFormed : WellFormed geometry tree) :
    WellFormed geometry tree.collapse := by
  cases wellFormed with
  | empty => exact .empty
  | uniform uniform _ => exact wellFormed_collapse uniform

/-- The leaves over chunks have these chunks. -/
theorem chunksOfAll_leaves (geometry : Geometry) (chunks : List α) :
    chunksOfAll (leaves geometry chunks) = chunks := by
  have rows (rows : List (List α)) :
      chunksOfAll (rows.map (makeLeaf geometry)) = rows.flatten := by
    induction rows with
    | nil => rfl
    | cons row rows ih =>
        rw [List.map_cons, chunksOfAll_cons, ih, chunks_makeLeaf, List.flatten_cons]
  rw [leaves, rows, flatten_groups]

theorem made_leaves (geometry : Geometry) (chunks : List α) :
    ∀ tree ∈ leaves geometry chunks, Made geometry tree := by
  intro tree member
  obtain ⟨group, _, rfl⟩ := List.mem_map.mp member
  exact .leaf group

/-- A graded property holds of the leaves over chunks. -/
theorem Graded.leaves {holds : Nat → Tree α → Prop} (graded : Graded geometry holds)
    (chunks : List α) : ∀ tree ∈ leaves geometry chunks, holds 0 tree := by
  intro tree member
  obtain ⟨group, grouped, rfl⟩ := List.mem_map.mp member
  have size := length_of_mem_groups geometry.branching_pos grouped
  exact graded.makeLeaf (List.length_pos_iff.mp size.1) size.2

theorem uniform_leaves (geometry : Geometry) (chunks : List α) :
    ∀ tree ∈ leaves geometry chunks, Uniform geometry 0 tree :=
  (graded_uniform geometry).leaves chunks

/-- The tree over a row of leaves is well-formed, even if there are none. -/
theorem wellFormed_ofSiblings_of_leaves {siblings : List (Tree α)}
    (uniform : ∀ tree ∈ siblings, Uniform geometry 0 tree) :
    WellFormed geometry (ofSiblings geometry siblings) := by
  refine wellFormed_ofSiblings uniform fun only single => ?_
  cases uniform only (single ▸ List.mem_cons_self) with
  | leaf _ _ _ _ => exact Nat.zero_ne_one

/-- The tree over chunks has these chunks. -/
theorem chunks_ofChunks (geometry : Geometry) (chunks : List α) :
    (ofChunks geometry chunks).chunks = chunks := by
  rw [ofChunks, chunks_ofSiblings, chunksOfAll_leaves]

theorem made_ofChunks (geometry : Geometry) (chunks : List α) :
    Made geometry (ofChunks geometry chunks) :=
  made_ofSiblings (made_leaves geometry chunks)

theorem wellFormed_ofChunks (geometry : Geometry) (chunks : List α) :
    WellFormed geometry (ofChunks geometry chunks) :=
  wellFormed_ofSiblings_of_leaves (uniform_leaves geometry chunks)

/-- Only the last tree of a row changes. -/
theorem pushedLast_concat (geometry : Geometry) (chunk : α) (front : List (Tree α))
    (last : Tree α) :
    pushedLast geometry chunk (front ++ [last]) = front ++ last.pushed geometry chunk := by
  induction front with
  | nil => rfl
  | cons first rest ih =>
      obtain ⟨next, later, more⟩ := List.exists_cons_of_ne_nil
        (List.append_ne_nil_of_right_ne_nil rest (List.cons_ne_nil last []))
      rw [List.cons_append, more, pushedLast, ← more, ih, List.cons_append]

/-- A pushed chunk comes after all that the tree has. -/
theorem chunksOfAll_pushed (geometry : Geometry) (chunk : α) (tree : Tree α) :
    chunksOfAll (tree.pushed geometry chunk) = tree.chunks ++ [chunk] := by
  induction tree with
  | leaf measure chunks =>
      unfold pushed
      split
      · simp only [chunksOfAll_cons, chunksOfAll_nil, List.append_nil, chunks_makeLeaf, chunks_leaf]
      · simp only [chunksOfAll_cons, chunksOfAll_nil, List.append_nil, chunks_makeLeaf]
  | node measure children ih =>
      rw [pushed, chunksOfAll_regroup, chunks_node]
      rcases eq_nil_or_exists_last children with rfl | ⟨front, last, rfl⟩
      · rfl
      · rw [pushedLast_concat, chunksOfAll_append, chunksOfAll_append,
          ih last List.mem_concat_self, chunksOfAll_cons, chunksOfAll_nil, List.append_nil,
          List.append_assoc]

/-- What holds of a row, and of the siblings that replace its last tree, holds of the row that is
left. -/
theorem forall_pushedLast {property : Tree α → Prop} (chunk : α) {children : List (Tree α)}
    (alone : children = [] → property (makeLeaf geometry [chunk]))
    (kept : ∀ child ∈ children, property child)
    (put : ∀ child ∈ children, ∀ sibling ∈ child.pushed geometry chunk, property sibling) :
    ∀ sibling ∈ pushedLast geometry chunk children, property sibling := by
  rcases eq_nil_or_exists_last children with rfl | ⟨front, last, rfl⟩
  · exact List.forall_mem_singleton.mpr (alone rfl)
  · rw [pushedLast_concat, List.forall_mem_append]
    exact ⟨fun child member => kept child (List.mem_append_left _ member),
      put last List.mem_concat_self⟩

/-- What replaces a made tree when a chunk is pushed is made. -/
theorem made_pushed (chunk : α) {tree : Tree α} (made : Made geometry tree) :
    ∀ sibling ∈ tree.pushed geometry chunk, Made geometry sibling := by
  induction tree with
  | leaf measure chunks =>
      unfold pushed
      split
      · rw [List.forall_mem_singleton]
        exact .leaf _
      · rw [List.forall_mem_cons, List.forall_mem_singleton]
        exact ⟨made, .leaf _⟩
  | node measure children ih =>
      apply made_regroup
      refine forall_pushedLast chunk ?_ ?_ ?_
      · intro _
        exact .leaf [chunk]
      · exact made.children
      · intro child member
        exact ih child member (made.children child member)

/-- What replaces a uniform tree when a chunk is pushed is uniform, at the same height. -/
theorem uniform_pushed (chunk : α) {height : Nat} {tree : Tree α}
    (uniform : Uniform geometry height tree) :
    ∀ sibling ∈ tree.pushed geometry chunk, Uniform geometry height sibling := by
  induction tree generalizing height with
  | leaf measure chunks =>
      obtain ⟨rfl, filled, fits⟩ := uniform.chunks
      unfold pushed
      split
      · next room =>
          rw [List.forall_mem_singleton]
          refine .makeLeaf (List.append_ne_nil_of_left_ne_nil filled _) ?_
          simp only [List.length_append, List.length_singleton]
          exact room
      · rw [List.forall_mem_cons, List.forall_mem_singleton]
        exact ⟨uniform, .makeLeaf (List.cons_ne_nil _ _) geometry.branching_pos⟩
  | node measure children ih =>
      obtain ⟨below, rfl, filled, _, under⟩ := uniform.children
      apply uniform_regroup
      refine forall_pushedLast chunk ?_ ?_ ?_
      · intro nothing
        exact absurd nothing filled
      · exact under
      · intro child member
        exact ih child member (under child member)

/-- A row of uniform trees stays one when a chunk is pushed into its last. -/
theorem uniform_pushedLast (chunk : α) {height : Nat} {children : List (Tree α)}
    (filled : children ≠ []) (uniform : ∀ child ∈ children, Uniform geometry height child) :
    ∀ sibling ∈ pushedLast geometry chunk children, Uniform geometry height sibling := by
  refine forall_pushedLast chunk ?_ ?_ ?_
  · intro nothing
    exact absurd nothing filled
  · exact uniform
  · intro child member
    exact uniform_pushed chunk (uniform child member)

/-- A tree that has a chunk is replaced by at least one. -/
theorem pushed_ne_nil (geometry : Geometry) (chunk : α) {tree : Tree α}
    (filled : tree.chunks ≠ []) : tree.pushed geometry chunk ≠ [] := by
  intro nothing
  have kept := chunksOfAll_pushed geometry chunk tree
  rw [nothing, chunksOfAll_nil] at kept
  exact filled (List.append_eq_nil_iff.mp kept.symm).1

/-- A row of uniform trees does not get shorter when a chunk is pushed into its last. -/
theorem length_le_length_pushedLast (geometry : Geometry) (chunk : α) {height : Nat}
    {children : List (Tree α)} (uniform : ∀ child ∈ children, Uniform geometry height child) :
    children.length ≤ (pushedLast geometry chunk children).length := by
  rcases eq_nil_or_exists_last children with rfl | ⟨front, last, rfl⟩
  · exact Nat.zero_le _
  · have several := pushed_ne_nil geometry chunk
      (uniform last List.mem_concat_self).chunks_ne_nil
    have positive := List.length_pos_iff.mpr several
    rw [pushedLast_concat, List.length_append, List.length_append, List.length_singleton]
    omega

/-- The chunks after a push are those before it and the new one. -/
theorem chunks_push (geometry : Geometry) (tree : Tree α) (chunk : α) :
    (tree.push geometry chunk).chunks = tree.chunks ++ [chunk] := by
  rw [push, chunks_ofSiblings, chunksOfAll_pushed]

theorem made_push (chunk : α) {tree : Tree α} (made : Made geometry tree) :
    Made geometry (tree.push geometry chunk) :=
  made_ofSiblings (made_pushed chunk made)

theorem wellFormed_push (chunk : α) {tree : Tree α} (wellFormed : WellFormed geometry tree) :
    WellFormed geometry (tree.push geometry chunk) := by
  cases wellFormed with
  | empty =>
      have single : (empty : Tree α).pushed geometry chunk = [makeLeaf geometry [chunk]] :=
        if_pos geometry.branching_pos
      rw [push, single]
      apply wellFormed_ofSiblings_of_leaves
      rw [List.forall_mem_singleton]
      exact .makeLeaf (List.cons_ne_nil _ _) geometry.branching_pos
  | uniform uniform branches =>
      unfold push
      cases uniform with
      | leaf length_eq height_eq filled fits =>
          exact wellFormed_ofSiblings_of_leaves
            (uniform_pushed chunk (.leaf length_eq height_eq filled fits))
      | node length_eq height_eq filled fits under =>
          have more := length_le_length_pushedLast geometry chunk under
          have several := List.length_pos_iff.mpr filled
          refine wellFormed_ofSiblings_regroup (uniform_pushedLast chunk filled under) ?_
          rw [Tree.children] at branches
          omega

/-- The chunks after several pushes are those before them and the new ones in order. -/
theorem chunks_pushAll (geometry : Geometry) (tree : Tree α) (chunks : List α) :
    (tree.pushAll geometry chunks).chunks = tree.chunks ++ chunks := by
  induction chunks generalizing tree with
  | nil => exact (List.append_nil _).symm
  | cons chunk rest ih =>
      rw [pushAll, List.foldl_cons, ← pushAll, ih, chunks_push, List.append_assoc,
        List.singleton_append]

theorem made_pushAll (chunks : List α) {tree : Tree α} (made : Made geometry tree) :
    Made geometry (tree.pushAll geometry chunks) := by
  induction chunks generalizing tree with
  | nil => exact made
  | cons chunk rest ih => exact ih (made_push chunk made)

theorem wellFormed_pushAll (chunks : List α) {tree : Tree α}
    (wellFormed : WellFormed geometry tree) :
    WellFormed geometry (tree.pushAll geometry chunks) := by
  induction chunks generalizing tree with
  | nil => exact wellFormed
  | cons chunk rest ih => exact ih (wellFormed_push chunk wellFormed)

end Tree
end GraphemeRope
