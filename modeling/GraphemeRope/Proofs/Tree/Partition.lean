import GraphemeRope.Proofs.Tree.Cut
import GraphemeRope.Proofs.Tree.Leveled

/-! # Parts of a tree

A cut parts a tree in two. The chunks of either part are the chunks of the tree on one side of the
cut, of which only the one at the cut may be shorter, and that one keeps an element. A part has
right lengths, and if the leaves of the tree lie at one depth, so do those of a part. This asks of a
tree nothing but right lengths, which every made tree has (`GraphemeRope.Tree.take_drop_parts`): it
may have empty chunks and empty leaves, and its leaves may lie at many depths.
-/

namespace GraphemeRope

namespace Chunk

variable {α ε : Type} [Chunk α ε]

/-- Whether a row has the first chunks of another, the last of which may have lost its end. -/
inductive FrontOf (row : List α) : List α → Prop where
  | whole {front rear : List α} (parts : row = front ++ rear) : FrontOf row front
  | cut {front rear : List α} {owner : α} {count : Nat} (parts : row = front ++ owner :: rear)
      (positive : 0 < count) (within : count < length owner) :
      FrontOf row (front ++ [take owner count])

/-- Whether a row has the last chunks of another, the first of which may have lost its start. -/
inductive RearOf (row : List α) : List α → Prop where
  | whole {front rear : List α} (parts : row = front ++ rear) : RearOf row rear
  | cut {front rear : List α} {owner : α} {start : Nat} (parts : row = front ++ owner :: rear)
      (positive : 0 < start) (within : start < length owner) : RearOf row (drop owner start :: rear)

variable {row part : List α}

namespace FrontOf

theorem nil (row : List α) : FrontOf row [] := .whole (List.nil_append row).symm

theorem refl (row : List α) : FrontOf row row := .whole (List.append_nil row).symm

/-- What comes before a row may come before its front as well. -/
theorem append_left (first : List α) (front : FrontOf row part) :
    FrontOf (first ++ row) (first ++ part) := by
  cases front with
  | whole parts =>
      rw [parts, ← List.append_assoc]
      exact .whole rfl
  | cut parts positive within =>
      rw [parts, ← List.append_assoc, ← List.append_assoc]
      exact .cut rfl positive within

/-- The front of a row is the front of any longer one. -/
theorem append_right (front : FrontOf row part) (last : List α) : FrontOf (row ++ last) part := by
  cases front with
  | whole parts =>
      rw [parts, List.append_assoc]
      exact .whole rfl
  | cut parts positive within =>
      rw [parts, List.append_assoc]
      exact .cut rfl positive within

variable [LawfulChunk α]

/-- The chunk at the cut is not empty. -/
theorem mem_of_length_eq_zero (front : FrontOf row part) {chunk : α} (member : chunk ∈ part)
    (vacant : length chunk = 0) : chunk ∈ row := by
  cases front with
  | whole parts => exact parts ▸ List.mem_append_left _ member
  | cut parts positive within =>
      rcases List.mem_append.mp member with early | last
      · exact parts ▸ List.mem_append_left _ early
      · rw [List.mem_singleton.mp last, length_take] at vacant
        omega

/-- Chunks are neither longer for a cut nor empty if none was. -/
theorem forall_within {least most : Nat} (cuttable : least ≤ 1) (front : FrontOf row part)
    (within : ∀ chunk ∈ row, Within least most chunk) :
    ∀ chunk ∈ part, Within least most chunk := by
  cases front with
  | whole parts =>
      rw [parts, List.forall_mem_append] at within
      exact within.1
  | cut parts positive inside =>
      rw [parts, List.forall_mem_append, List.forall_mem_cons] at within
      obtain ⟨early, ⟨least_le, le_most⟩, _⟩ := within
      rw [List.forall_mem_append, List.forall_mem_singleton, Within, length_take]
      refine ⟨early, ?_, ?_⟩
      · omega
      · omega

end FrontOf

namespace RearOf

theorem nil (row : List α) : RearOf row [] := .whole (List.append_nil row).symm

theorem refl (row : List α) : RearOf row row := .whole (List.nil_append row).symm

/-- The rear of a row is the rear of any that ends in it. -/
theorem append_left (first : List α) (rear : RearOf row part) : RearOf (first ++ row) part := by
  cases rear with
  | whole parts =>
      rw [parts, ← List.append_assoc]
      exact .whole rfl
  | cut parts positive within =>
      rw [parts, ← List.append_assoc]
      exact .cut rfl positive within

/-- What comes after a row may come after its rear as well. -/
theorem append_right (rear : RearOf row part) (last : List α) :
    RearOf (row ++ last) (part ++ last) := by
  cases rear with
  | whole parts =>
      rw [parts, List.append_assoc]
      exact .whole rfl
  | cut parts positive within =>
      rw [parts, List.append_assoc]
      exact .cut rfl positive within

variable [LawfulChunk α]

/-- The chunk at the cut is not empty. -/
theorem mem_of_length_eq_zero (rear : RearOf row part) {chunk : α} (member : chunk ∈ part)
    (vacant : length chunk = 0) : chunk ∈ row := by
  cases rear with
  | whole parts => exact parts ▸ List.mem_append_right _ member
  | cut parts positive within =>
      rcases List.mem_cons.mp member with rfl | later
      · rw [length_drop] at vacant
        omega
      · exact parts ▸ List.mem_append_right _ (List.mem_cons_of_mem _ later)

/-- Chunks are neither longer for a cut nor empty if none was. -/
theorem forall_within {least most : Nat} (cuttable : least ≤ 1) (rear : RearOf row part)
    (within : ∀ chunk ∈ row, Within least most chunk) :
    ∀ chunk ∈ part, Within least most chunk := by
  cases rear with
  | whole parts =>
      rw [parts, List.forall_mem_append] at within
      exact within.2
  | cut parts positive inside =>
      rw [parts, List.forall_mem_append, List.forall_mem_cons] at within
      obtain ⟨_, ⟨least_le, le_most⟩, late⟩ := within
      rw [List.forall_mem_cons, Within, length_drop]
      refine ⟨⟨?_, ?_⟩, late⟩
      · omega
      · omega

end RearOf

end Chunk

namespace Tree

open Chunk (FrontOf RearOf)

variable {α ε : Type} [Chunk α ε] {geometry : Geometry}

/-- The chunks before a cut are the front of the row. -/
theorem frontOf_chunksBefore (row : List α) (count : Nat) :
    FrontOf row (chunksBefore row count) := by
  induction row generalizing count with
  | nil => exact .nil []
  | cons chunk rest ih =>
      unfold chunksBefore
      split
      · exact .nil _
      · next nonzero =>
          split
          · exact (ih _).append_left [chunk]
          · next partly =>
              rw [← List.nil_append [Chunk.take chunk count]]
              exact .cut rfl (Nat.pos_of_ne_zero nonzero) (Nat.lt_of_not_le partly)

/-- The chunks after a cut are the rear of the row. -/
theorem rearOf_chunksFrom (row : List α) (start : Nat) : RearOf row (chunksFrom row start) := by
  induction row generalizing start with
  | nil => exact .nil []
  | cons chunk rest ih =>
      unfold chunksFrom
      split
      · next inside =>
          split
          · exact .refl _
          · next nonzero =>
              exact .cut (List.nil_append _).symm (Nat.pos_of_ne_zero nonzero) inside
      · exact (ih _).append_left [chunk]

/-- Before a position that is not inside it the whole tree is left. -/
theorem before?_of_length_le {tree : Tree α} {count : Nat} (covered : tree.length ≤ count) :
    tree.before? geometry count = some tree := by
  cases tree with
  | leaf measure chunks => exact if_pos covered
  | node measure children => exact if_pos covered

/-- Nothing is left before the first position. -/
theorem treesBefore_zero (trees : List (Tree α)) : treesBefore geometry trees 0 = [] := by
  cases trees with
  | nil => rfl
  | cons tree rest => exact if_pos rfl

/-- The chunks of a row of trees before a cut are a front, if that is so in each tree. -/
theorem frontOf_treesBefore {trees : List (Tree α)}
    (cut : ∀ tree ∈ trees, ∀ count,
      FrontOf tree.chunks (chunksOfAll (tree.before? geometry count).toList)) (count : Nat) :
    FrontOf (chunksOfAll trees) (chunksOfAll (treesBefore geometry trees count)) := by
  induction trees generalizing count with
  | nil => exact .nil []
  | cons tree rest ih =>
      rw [List.forall_mem_cons] at cut
      unfold treesBefore
      split
      · exact .nil _
      · rw [chunksOfAll_append, chunksOfAll_cons]
        rcases Nat.le_total tree.length count with covered | partly
        · rw [before?_of_length_le covered, chunksOfAll_some]
          exact (ih cut.2 _).append_left _
        · rw [Nat.sub_eq_zero_of_le partly, treesBefore_zero, chunksOfAll_nil, List.append_nil]
          exact (cut.1 count).append_right _

/-- The chunks of a row of trees after a cut are a rear, if that is so in each tree. -/
theorem rearOf_treesFrom {trees : List (Tree α)}
    (cut : ∀ tree ∈ trees, ∀ start,
      RearOf tree.chunks (chunksOfAll (tree.from? geometry start).toList)) (start : Nat) :
    RearOf (chunksOfAll trees) (chunksOfAll (treesFrom geometry trees start)) := by
  induction trees generalizing start with
  | nil => exact .nil []
  | cons tree rest ih =>
      rw [List.forall_mem_cons] at cut
      unfold treesFrom
      split
      · rw [chunksOfAll_append, chunksOfAll_cons]
        exact (cut.1 start).append_right _
      · exact (ih cut.2 _).append_left _

/-- The chunks that a cut leaves before it are a front of those of the tree. -/
theorem frontOf_before? (geometry : Geometry) (tree : Tree α) (count : Nat) :
    FrontOf tree.chunks (chunksOfAll (tree.before? geometry count).toList) := by
  induction tree generalizing count with
  | leaf measure chunks =>
      unfold before?
      split
      · rw [chunksOfAll_some]
        exact .refl _
      · split
        · exact .nil _
        · rw [chunksOfAll_some]
          exact frontOf_chunksBefore chunks count
  | node measure children ih =>
      unfold before?
      split
      · rw [chunksOfAll_some]
        exact .refl _
      · split
        · exact .nil _
        · rw [chunksOfAll_some]
          exact frontOf_treesBefore ih count

/-- The chunks that a cut leaves after it are a rear of those of the tree. -/
theorem rearOf_from? (geometry : Geometry) (tree : Tree α) (start : Nat) :
    RearOf tree.chunks (chunksOfAll (tree.from? geometry start).toList) := by
  induction tree generalizing start with
  | leaf measure chunks =>
      unfold from?
      split
      · rw [chunksOfAll_some]
        exact .refl _
      · split
        · exact .nil _
        · rw [chunksOfAll_some]
          exact rearOf_chunksFrom chunks start
  | node measure children ih =>
      unfold from?
      split
      · rw [chunksOfAll_some]
        exact .refl _
      · split
        · exact .nil _
        · rw [chunksOfAll_some]
          exact rearOf_treesFrom ih start

/-- What a tree passes on to what is left of it after a cut. -/
structure Pruned (geometry : Geometry) (tree part : Tree α) : Prop where
  counted : Counted part
  made : Made geometry tree → Made geometry part
  leavesAt {depth : Nat} : LeavesAt depth tree → LeavesAt depth part
  grounded : Grounded tree → Grounded part

namespace Pruned

theorem refl {tree : Tree α} (counted : Counted tree) : Pruned geometry tree tree :=
  ⟨counted, id, id, id⟩

/-- A leaf is pruned to one of any chunks. -/
theorem leaf {measure : Measure} {chunks : List α} (kept : List α) :
    Pruned geometry (.leaf measure chunks) (makeLeaf geometry kept) where
  counted := .leaf rfl
  made _ := .leaf kept
  leavesAt leaves := by
    cases leaves with
    | leaf => exact .leaf
  grounded _ := .leaf

/-- A node over what is left of the trees in the slots of another. -/
theorem node {measure : Measure} {children kept : List (Tree α)}
    (origin : ∀ tree ∈ kept, ∃ child ∈ children, Pruned geometry child tree)
    (filled : children ≠ [] → kept ≠ []) :
    Pruned geometry (.node measure children) (makeNode geometry kept) where
  counted := .node rfl fun tree member => by
    obtain ⟨_, _, pruned⟩ := origin tree member
    exact pruned.counted
  made whole := .node kept fun tree member => by
    obtain ⟨child, inside, pruned⟩ := origin tree member
    exact pruned.made (whole.children child inside)
  leavesAt leaves := by
    obtain ⟨below, rfl, under⟩ := leaves.children
    refine .node fun tree member => ?_
    obtain ⟨child, inside, pruned⟩ := origin tree member
    exact pruned.leavesAt (under child inside)
  grounded whole := by
    refine .node (filled whole.children.1) fun tree member => ?_
    obtain ⟨child, inside, pruned⟩ := origin tree member
    exact pruned.grounded (whole.children.2 child inside)

end Pruned

/-- What a cut leaves before it is pruned from the tree. -/
theorem pruned_before? {tree : Tree α} (counted : Counted tree) (count : Nat) :
    ∀ front ∈ tree.before? geometry count, Pruned geometry tree front := by
  induction tree generalizing count with
  | leaf measure chunks =>
      intro front member
      rcases mem_before?_leaf member with rfl | ⟨_, rfl⟩
      · exact .refl counted
      · exact .leaf _
  | node measure children ih =>
      intro front member
      rcases mem_before?_node member with rfl | ⟨nonzero, rfl⟩
      · exact .refl counted
      · refine .node (forall_treesBefore ?_ count) fun filled => treesBefore_ne_nil filled nonzero
        intro child inside count front member
        exact ⟨child, inside, ih child inside (counted.forall_children child inside) count front
          member⟩

/-- What a cut leaves after it is pruned from the tree. -/
theorem pruned_from? {tree : Tree α} (counted : Counted tree) (start : Nat) :
    ∀ rear ∈ tree.from? geometry start, Pruned geometry tree rear := by
  induction tree generalizing start with
  | leaf measure chunks =>
      intro rear member
      rcases mem_from?_leaf member with rfl | ⟨_, rfl⟩
      · exact .refl counted
      · exact .leaf _
  | node measure children ih =>
      intro rear member
      rcases mem_from?_node member with rfl | ⟨inside, rfl⟩
      · exact .refl counted
      · have below := counted.forall_children
        refine .node (forall_treesFrom ?_ ?_ start)
          fun _ => treesFrom_ne_nil (counted.length_eq ▸ inside)
        · intro child member
          exact ⟨child, member, .refl (below child member)⟩
        · intro child member start rear left
          exact ⟨child, member, ih child member (below child member) start rear left⟩

/-- What a tree passes on to a part of it. Its leaves may come to lie higher. -/
structure IsPart (geometry : Geometry) (tree part : Tree α) : Prop where
  counted : Counted part
  made : Made geometry tree → Made geometry part
  leavesAt {depth : Nat} : LeavesAt depth tree → ∃ below, LeavesAt below part
  grounded : Grounded tree → Grounded part
  isCollapsed : IsCollapsed part

/-- The empty tree is part of any. -/
theorem IsPart.empty (tree : Tree α) : IsPart geometry tree empty where
  counted := .leaf rfl
  made _ := made_empty
  leavesAt _ := ⟨0, .leaf⟩
  grounded _ := .leaf
  isCollapsed := trivial

/-- What is pruned from a tree, with its root collapsed, is part of it. -/
theorem Pruned.collapse {tree part : Tree α} (pruned : Pruned geometry tree part) :
    IsPart geometry tree part.collapse where
  counted := pruned.counted.collapse
  made whole := made_collapse (pruned.made whole)
  leavesAt leaves := (pruned.leavesAt leaves).collapse
  grounded whole := (pruned.grounded whole).collapse
  isCollapsed := isCollapsed_collapse part

section Parts

variable {tree : Tree α}

/-- The chunks of the front of a tree are a front of its chunks. -/
theorem frontOf_take (geometry : Geometry) (tree : Tree α) (count : Nat) :
    FrontOf tree.chunks (tree.take geometry count).chunks := by
  have front := frontOf_before? geometry tree count
  rw [take, chunks_collapse]
  cases cut : tree.before? geometry count with
  | none => exact .nil _
  | some part =>
      rw [cut, chunksOfAll_some] at front
      exact front

theorem rearOf_drop (geometry : Geometry) (tree : Tree α) (start : Nat) :
    RearOf tree.chunks (tree.drop geometry start).chunks := by
  have rear := rearOf_from? geometry tree start
  rw [drop, chunks_collapse]
  cases cut : tree.from? geometry start with
  | none => exact .nil _
  | some part =>
      rw [cut, chunksOfAll_some] at rear
      exact rear

/-- The front of a counted tree is part of it. -/
theorem isPart_take (counted : Counted tree) (count : Nat) :
    IsPart geometry tree (tree.take geometry count) := by
  unfold take
  cases cut : tree.before? geometry count with
  | none => exact .empty tree
  | some front => exact (pruned_before? counted count front cut).collapse

theorem isPart_drop (counted : Counted tree) (start : Nat) :
    IsPart geometry tree (tree.drop geometry start) := by
  unfold drop
  cases cut : tree.from? geometry start with
  | none => exact .empty tree
  | some rear => exact (pruned_from? counted start rear cut).collapse

theorem made_take (made : Made geometry tree) (count : Nat) :
    Made geometry (tree.take geometry count) :=
  (isPart_take made.counted count).made made

theorem made_drop (made : Made geometry tree) (start : Nat) :
    Made geometry (tree.drop geometry start) :=
  (isPart_drop made.counted start).made made

/-- The chunks of the front of a tree keep the bounds that its chunks had. -/
theorem within_take [LawfulChunk α] {least most : Nat} (cuttable : least ≤ 1)
    (within : ∀ chunk ∈ tree.chunks, Chunk.Within least most chunk) (count : Nat) :
    ∀ chunk ∈ (tree.take geometry count).chunks, Chunk.Within least most chunk :=
  (frontOf_take geometry tree count).forall_within cuttable within

theorem within_drop [LawfulChunk α] {least most : Nat} (cuttable : least ≤ 1)
    (within : ∀ chunk ∈ tree.chunks, Chunk.Within least most chunk) (start : Nat) :
    ∀ chunk ∈ (tree.drop geometry start).chunks, Chunk.Within least most chunk :=
  (rearOf_drop geometry tree start).forall_within cuttable within

/-- **A cut parts a tree.** The first part has the elements before the cut and the second those
after it. Each has the chunks on its side of the cut, the one at the cut shortened to what is on
that side. No chunk is empty that was not so in the tree. What the tree fulfils, the parts do, and
their roots are leaves or have several trees below them. -/
theorem take_drop_parts [LawfulChunk α] (geometry : Geometry) (counted : Counted tree)
    (count : Nat) :
    ((tree.take geometry count).elements = tree.elements.take count ∧
      (tree.drop geometry count).elements = tree.elements.drop count) ∧
    (FrontOf tree.chunks (tree.take geometry count).chunks ∧
      RearOf tree.chunks (tree.drop geometry count).chunks) ∧
    (∀ chunk ∈ (tree.take geometry count).chunks ++ (tree.drop geometry count).chunks,
      Chunk.length chunk = 0 → chunk ∈ tree.chunks) ∧
    IsPart geometry tree (tree.take geometry count) ∧
    IsPart geometry tree (tree.drop geometry count) := by
  have front := frontOf_take geometry tree count
  have rear := rearOf_drop geometry tree count
  refine ⟨⟨counted.elements_take count, counted.elements_drop count⟩, ⟨front, rear⟩, ?_,
    isPart_take counted count, isPart_drop counted count⟩
  intro chunk member vacant
  rcases List.mem_append.mp member with early | late
  · exact front.mem_of_length_eq_zero early vacant
  · exact rear.mem_of_length_eq_zero late vacant

end Parts

/-- A tree with an empty chunk at the end of each leaf, cut inside the chunk after the first. -/
theorem take_drop_parts_of_gaps :
    let small : Geometry := ⟨1, 1, by decide, by decide⟩
    let tree : Tree UnitChunk :=
      makeNode small [makeLeaf small [⟨[1]⟩, ⟨[]⟩], makeLeaf small [⟨[2, 3]⟩, ⟨[]⟩]]
    let front := tree.take small 2
    let rear := tree.drop small 2
    (front.elements = [1, 2] ∧ rear.elements = [3]) ∧
      (FrontOf tree.chunks front.chunks ∧ RearOf tree.chunks rear.chunks) ∧
      (Made small front ∧ Made small rear) ∧
      (∃ depth, LeavesAt depth front) ∧ (∃ depth, LeavesAt depth rear) ∧
      IsCollapsed front ∧ IsCollapsed rear := by
  intro small tree front rear
  have made : Made small tree := by
    refine .node _ (List.forall_mem_cons.mpr ⟨.leaf _, ?_⟩)
    exact List.forall_mem_singleton.mpr (.leaf _)
  have leaves : LeavesAt 1 tree := by
    refine .node (List.forall_mem_cons.mpr ⟨.leaf, ?_⟩)
    exact List.forall_mem_singleton.mpr .leaf
  obtain ⟨elements, chunks, _, first, second⟩ := take_drop_parts small made.counted 2
  exact ⟨elements, chunks, ⟨first.made made, second.made made⟩, first.leavesAt leaves,
    second.leavesAt leaves, first.isCollapsed, second.isCollapsed⟩

end Tree
end GraphemeRope
