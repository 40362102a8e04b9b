import GraphemeRope.Proofs.Tree.Lookup
import GraphemeRope.Proofs.Tree.Packing
import Mathlib.Order.Bounds.Basic

/-! # Dense trees

In a dense tree all slots but the last are full at every height. A tree that is filled from the left
is dense if its chunks are full, of which the last may be short
(`GraphemeRope.Chunk.Packed.isDense_ofChunks`), and then no lower tree has room for its elements
(`GraphemeRope.Chunk.Packed.isLeast_height_ofChunks`). Cutting the end of a dense tree off only
shortens the last slot at each height, so what is left of the tree is dense as well
(`GraphemeRope.Tree.dense_take`).
-/

namespace GraphemeRope

namespace Chunk

variable {α ε : Type} [Chunk α ε] {geometry : Geometry} {row part : List α}

/-- Whether all chunks of a row but the last are full, and that one is no longer. -/
structure Packed (geometry : Geometry) (row : List α) : Prop where
  full : ∀ chunk ∈ row.dropLast, length chunk = geometry.leafLength
  short : ∀ chunk ∈ row, length chunk ≤ geometry.leafLength

namespace Packed

/-- A row of full chunks is packed. -/
theorem of_full (full : ∀ chunk ∈ row, length chunk = geometry.leafLength) :
    Packed geometry row where
  full chunk member := full chunk (List.dropLast_subset _ member)
  short chunk member := Nat.le_of_eq (full chunk member)

/-- Before other chunks of a packed row all are full. -/
theorem of_append {front rear : List α} (packed : Packed geometry (front ++ rear))
    (more : rear ≠ []) :
    (∀ chunk ∈ front, length chunk = geometry.leafLength) ∧ Packed geometry rear := by
  obtain ⟨full, short⟩ := packed
  rw [List.dropLast_append_of_ne_nil more, List.forall_mem_append] at full
  rw [List.forall_mem_append] at short
  exact ⟨full.1, full.2, short.2⟩

/-- Only the last chunk is shorter for a cut. -/
theorem frontOf [LawfulChunk α] (packed : Packed geometry row) (front : FrontOf row part) :
    Packed geometry part := by
  cases front with
  | @whole _ rear parts =>
      rw [parts] at packed
      by_cases nothing : rear = []
      · rw [nothing, List.append_nil] at packed
        exact packed
      · exact .of_full (packed.of_append nothing).1
  | @cut front rear owner count parts nonzero within =>
      rw [parts] at packed
      obtain ⟨full, rest⟩ := packed.of_append (List.cons_ne_nil _ _)
      refine ⟨List.dropLast_concat ▸ full, ?_⟩
      rw [List.forall_mem_append, List.forall_mem_singleton, length_take]
      exact ⟨fun chunk member => Nat.le_of_eq (full chunk member),
        Nat.le_trans (Nat.min_le_right _ _) (rest.short owner List.mem_cons_self)⟩

end Packed
end Chunk

namespace Tree

open Chunk (Packed)

variable {α ε : Type} [Chunk α ε] {geometry : Geometry} {chunks : List α}

/-- A leaf of packed chunks that fit its slots is dense. -/
theorem isDense_makeLeaf (fits : chunks.length ≤ geometry.branching)
    (packed : Packed geometry chunks) : (makeLeaf geometry chunks).isDense = true := by
  simp only [isDense, measure, makeLeaf, Bool.and_eq_true, decide_eq_true_eq, packed_iff]
  exact ⟨fits, packed.full, fun chunk last => packed.short chunk (List.mem_of_getLast? last)⟩

omit [Chunk α ε] in
/-- A node over dense trees of one height is dense if they fit its slots and all but the last one
are at capacity. -/
theorem isDense_makeNode {height : Nat} {children : List (Tree α)}
    (fits : children.length ≤ geometry.branching)
    (heights : ∀ child ∈ children, child.height = height)
    (dense : ∀ child ∈ children, child.isDense = true)
    (full : ∀ child ∈ children.dropLast, child.length = geometry.capacity height) :
    (makeNode geometry children).isDense = true := by
  have fitting : ∀ child ∈ children,
      (child.isDense && decide (child.height + 1 = heightAbove children)) = true := by
    intro child member
    have above := heightAbove_of_uniform (List.ne_nil_of_mem member) heights
    rw [dense child member, heights child member, above, Bool.true_and, decide_eq_true_eq]
  simp only [isDense, measure, makeNode, Bool.and_eq_true, decide_eq_true_eq, packed_iff]
  simp only [Bool.and_eq_true, decide_eq_true_eq] at fitting
  refine ⟨fits, fun child member => ?_, fun child last => fitting child (List.mem_of_getLast? last)⟩
  have inside := List.dropLast_subset _ member
  refine ⟨fitting child inside, ?_⟩
  rw [full child member, heights child inside]

/-- Parents of dense siblings are dense, if all siblings but the last are full. All parents but the
last are then full themselves. -/
theorem isDense_regroup {height : Nat} {siblings : List (Tree α)}
    (uniform : ∀ sibling ∈ siblings, Uniform geometry height sibling)
    (dense : ∀ sibling ∈ siblings, sibling.isDense = true)
    (full : ∀ sibling ∈ siblings.dropLast, sibling.length = geometry.weight (height + 1))
    (representable : ∀ sibling ∈ siblings, sibling.length < 2 ^ Geometry.indexBits) :
    (∀ parent ∈ regroup geometry siblings, parent.isDense = true) ∧
      ∀ parent ∈ (regroup geometry siblings).dropLast,
        parent.length = geometry.weight (height + 2) := by
  by_cases vacant : siblings = []
  · rw [vacant, regroup, groups_nil]
    exact ⟨List.forall_mem_nil _, List.forall_mem_nil _⟩
  obtain ⟨blocks, last, cut, rfl, ends, sizes⟩ := exists_last_group geometry.branching_pos vacant
  rw [List.dropLast_append_of_ne_nil ends, List.forall_mem_append] at full
  have capacities : ∀ sibling ∈ blocks.flatten ++ last,
      sibling.length = geometry.weight (height + 1) →
        sibling.length = geometry.capacity height := by
    intro sibling member weighed
    rw [weighed, geometry.capacity_of_lt (weighed ▸ representable sibling member)]
  have heights : ∀ sibling ∈ blocks.flatten ++ last, sibling.height = height :=
    fun sibling member => (uniform sibling member).height_eq
  rw [List.forall_mem_append] at heights dense capacities
  have within {block : List (Tree α)} (member : block ∈ blocks) :
      ∀ child ∈ block, child ∈ blocks.flatten := fun child inside =>
    List.mem_flatten.mpr ⟨block, member, inside⟩
  have fits := length_of_mem_groups geometry.branching_pos
    (cut ▸ List.mem_concat_self : last ∈ groups geometry.branching (blocks.flatten ++ last))
  rw [regroup, cut, List.map_append, List.map_singleton, List.dropLast_concat,
    List.forall_mem_append, List.forall_mem_singleton]
  refine ⟨⟨?_, ?_⟩, ?_⟩
  · intro parent member
    obtain ⟨block, inside, rfl⟩ := List.mem_map.mp member
    refine isDense_makeNode (Nat.le_of_eq (sizes block inside))
      (fun child below => heights.1 child (within inside child below))
      (fun child below => dense.1 child (within inside child below)) fun child below => ?_
    have owned := within inside child (List.dropLast_subset _ below)
    exact capacities.1 child owned (full.1 child owned)
  · exact isDense_makeNode fits.2 heights.2 dense.2 fun child below =>
      capacities.2 child (List.dropLast_subset _ below) (full.2 child below)
  · intro parent member
    obtain ⟨block, inside, rfl⟩ := List.mem_map.mp member
    have summed := total_map_eq_mul fun child below => full.1 child (within inside child below)
    rw [sizes block inside, Nat.mul_comm, ← geometry.weight_succ] at summed
    exact summed

/-- Leaves of packed chunks are dense, and all but the last are full. -/
theorem isDense_leaves (packed : Packed geometry chunks) :
    (∀ tree ∈ leaves geometry chunks, tree.isDense = true) ∧
      ∀ tree ∈ (leaves geometry chunks).dropLast, tree.length = geometry.weight 1 := by
  by_cases vacant : chunks = []
  · rw [vacant, leaves, groups_nil]
    exact ⟨List.forall_mem_nil _, List.forall_mem_nil _⟩
  obtain ⟨blocks, last, cut, rfl, ends, sizes⟩ := exists_last_group geometry.branching_pos vacant
  obtain ⟨full, rest⟩ := packed.of_append ends
  have within {block : List α} (member : block ∈ blocks) :
      ∀ chunk ∈ block, Chunk.length chunk = geometry.leafLength := fun chunk inside =>
    full chunk (List.mem_flatten.mpr ⟨block, member, inside⟩)
  have fits := length_of_mem_groups geometry.branching_pos
    (cut ▸ List.mem_concat_self : last ∈ groups geometry.branching (blocks.flatten ++ last))
  rw [leaves, cut, List.map_append, List.map_singleton, List.dropLast_concat,
    List.forall_mem_append, List.forall_mem_singleton]
  refine ⟨⟨?_, isDense_makeLeaf fits.2 rest⟩, ?_⟩
  · intro tree member
    obtain ⟨block, inside, rfl⟩ := List.mem_map.mp member
    exact isDense_makeLeaf (Nat.le_of_eq (sizes block inside)) (.of_full (within inside))
  · intro tree member
    obtain ⟨block, inside, rfl⟩ := List.mem_map.mp member
    have summed := total_map_eq_mul (within inside)
    rw [sizes block inside, Nat.mul_comm, ← geometry.weight_zero, ← geometry.weight_succ] at summed
    exact summed

/-- The trees of a level hold all elements together. -/
theorem total_lengths_level (geometry : Geometry) (chunks : List α) (height : Nat) :
    total ((level geometry chunks height).map length) = (Chunk.elementsOf chunks).length := by
  rw [total_lengths fun tree member => (made_level geometry chunks height tree member).length_eq,
    chunksOfAll_level]

/-- No tree of a level holds more elements than there are. -/
theorem length_le_of_mem_level {height : Nat} {tree : Tree α}
    (member : tree ∈ level geometry chunks height) :
    tree.length ≤ (Chunk.elementsOf chunks).length := by
  rw [← total_lengths_level geometry chunks height]
  exact le_total_of_mem (List.mem_map_of_mem member)

/-- All trees of a level over packed chunks are dense, and all but the last one are full. -/
theorem isDense_level (packed : Packed geometry chunks)
    (representable : (Chunk.elementsOf chunks).length < 2 ^ Geometry.indexBits) (height : Nat) :
    (∀ tree ∈ level geometry chunks height, tree.isDense = true) ∧
      ∀ tree ∈ (level geometry chunks height).dropLast,
        tree.length = geometry.weight (height + 1) := by
  induction height with
  | zero => exact isDense_leaves packed
  | succ height ih =>
      exact isDense_regroup (uniform_level geometry chunks height) ih.1 ih.2
        fun tree member => Nat.lt_of_le_of_lt (length_le_of_mem_level member) representable

/-- No tree of a level is empty if no chunk is. -/
theorem length_pos_of_mem_level (filled : ∀ chunk ∈ chunks, 0 < Chunk.length chunk) {height : Nat}
    {tree : Tree α} (member : tree ∈ level geometry chunks height) : 0 < tree.length := by
  have uniform := uniform_level geometry chunks height tree member
  obtain ⟨chunk, rest, below⟩ := List.exists_cons_of_ne_nil uniform.chunks_ne_nil
  have inside : chunk ∈ chunks := by
    rw [← chunksOfAll_level geometry chunks height, chunksOfAll_eq_flatMap]
    exact List.mem_flatMap.mpr ⟨tree, member, below ▸ List.mem_cons_self⟩
  rw [uniform.length_eq, elements_eq_elementsOf, below, Chunk.elementsOf_cons, List.length_append]
  exact Nat.add_pos_left (filled chunk inside) _

end Tree

namespace Chunk.Packed

variable {α ε : Type} [Chunk α ε] {geometry : Geometry} {chunks : List α}
  (packed : Packed geometry chunks)
  (representable : (elementsOf chunks).length < 2 ^ Geometry.indexBits)
include packed representable

/-- **Density.** The tree over a row of packed chunks is dense. -/
theorem isDense_ofChunks : (Tree.ofChunks geometry chunks).isDense = true := by
  by_cases vacant : chunks = []
  · rw [vacant, Tree.ofChunks_nil]
    rfl
  · obtain ⟨height, top, _⟩ := Tree.exists_level_eq_singleton geometry vacant
    have dense := (Tree.isDense_level packed representable height).1
    rw [top, List.forall_mem_singleton] at dense
    exact dense

/-- **Least height.** The tree over a row of packed chunks is as low as a tree with room for its
elements can be. -/
theorem isLeast_height_ofChunks (filled : ∀ chunk ∈ chunks, 0 < length chunk) :
    IsLeast {height | (elementsOf chunks).length ≤ geometry.capacity height}
      (Tree.ofChunks geometry chunks).height := by
  by_cases vacant : chunks = []
  · rw [vacant, Tree.ofChunks_nil]
    exact ⟨Nat.zero_le _, fun height _ => Nat.zero_le height⟩
  obtain ⟨height, top, several⟩ := Tree.exists_level_eq_singleton geometry vacant
  have uniform := Tree.uniform_level geometry chunks height
  rw [top, List.forall_mem_singleton] at uniform
  have made := Tree.made_ofChunks geometry chunks
  have length_eq := made.length_eq
  rw [Tree.elements_eq_elementsOf, Tree.chunks_ofChunks] at length_eq
  have room := made.length_le_weight (packed.isDense_ofChunks representable)
  rw [length_eq, uniform.height_eq, ← geometry.le_capacity_iff representable] at room
  rw [uniform.height_eq]
  refine ⟨room, fun lower fits => Nat.le_of_not_lt fun below => ?_⟩
  -- Below the root there are several trees, the first of which is full.
  obtain ⟨first, second, rest, row⟩ : ∃ first second rest,
      Tree.level geometry chunks lower = first :: second :: rest := by
    match Tree.level geometry chunks lower, several lower below with
    | first :: second :: rest, _ => exact ⟨first, second, rest, rfl⟩
  have full := (Tree.isDense_level packed representable lower).2
  rw [row, List.dropLast_cons_cons, List.forall_mem_cons] at full
  have more : 0 < second.length := Tree.length_pos_of_mem_level filled
    (row ▸ List.mem_cons_of_mem _ List.mem_cons_self)
  have lengths := Tree.total_lengths_level geometry chunks lower
  rw [row, List.map_cons, List.map_cons, total, total, full.1] at lengths
  have fits' := (geometry.le_capacity_iff representable lower).mp fits
  omega

end Chunk.Packed

namespace Tree

open Chunk (Packed)

variable {α ε : Type} [Chunk α ε] {geometry : Geometry} {chunks : List α}

/-- The tree over a row of full chunks is dense. -/
theorem isDense_ofChunks (full : ∀ chunk ∈ chunks, Chunk.length chunk = geometry.leafLength)
    (representable : (Chunk.elementsOf chunks).length < 2 ^ Geometry.indexBits) :
    (ofChunks geometry chunks).isDense = true :=
  (Packed.of_full full).isDense_ofChunks representable

section Taking

variable {tree : Tree α}

/-- Dropping the nodes above a single tree leaves a dense tree. -/
theorem isDense_collapse (made : Made geometry tree) (dense : tree.isDense = true) :
    tree.collapse.isDense = true := by
  induction tree using collapse.induct with
  | case1 measure chunks => exact dense
  | case2 measure => rfl
  | case3 measure only ih =>
      cases made with
      | node _ below =>
          have fits := (dense_makeNode dense).2.2 only List.mem_cons_self
          exact ih (below only List.mem_cons_self) fits.1
  | case4 measure first second rest => exact dense

/-- Of the trees before a cut, only the last is cut. -/
theorem length_of_mem_dropLast_treesBefore {width : Nat} {trees : List (Tree α)}
    (full : ∀ tree ∈ trees.dropLast, tree.length = width) (count : Nat) :
    ∀ tree ∈ (treesBefore geometry trees count).dropLast, tree.length = width := by
  induction trees generalizing count with
  | nil => exact List.forall_mem_nil _
  | cons tree rest ih =>
      unfold treesBefore
      split
      · exact List.forall_mem_nil _
      next nonzero =>
      rcases Nat.lt_or_ge tree.length count with further | last
      · rw [before?_of_length_le (Nat.le_of_lt further), Option.toList_some, List.singleton_append]
        by_cases nothing : rest = []
        · rw [nothing]
          exact List.forall_mem_nil _
        · have remains : treesBefore geometry rest (count - tree.length) ≠ [] :=
            treesBefore_ne_nil nothing (Nat.sub_ne_zero_of_lt further)
          rw [List.dropLast_cons_of_ne_nil nothing, List.forall_mem_cons] at full
          rw [List.dropLast_cons_of_ne_nil remains, List.forall_mem_cons]
          exact ⟨full.1, ih full.2 _⟩
      · obtain ⟨front, cut⟩ := exists_before? geometry tree nonzero
        rw [Nat.sub_eq_zero_of_le last, treesBefore_zero, List.append_nil, cut]
        exact List.forall_mem_nil _

variable [LawfulChunk α]

/-- What is left of a dense tree before a cut is dense, and as high as the tree. -/
theorem dense_before? (made : Made geometry tree) (dense : tree.isDense = true) (count : Nat) :
    ∀ front ∈ tree.before? geometry count, front.isDense = true ∧ front.height = tree.height := by
  induction made generalizing count with
  | leaf chunks =>
      obtain ⟨fits, full, short⟩ := dense_makeLeaf dense
      intro front member
      rcases mem_before?_leaf member with rfl | ⟨_, rfl⟩
      · exact ⟨dense, rfl⟩
      · exact ⟨isDense_makeLeaf (Nat.le_trans (length_chunksBefore_le chunks count) fits)
          (Packed.frontOf ⟨full, short⟩ (frontOf_chunksBefore chunks count)), rfl⟩
  | node children made ih =>
      obtain ⟨fits, full, fitting⟩ := dense_makeNode dense
      intro front member
      rcases mem_before?_node member with rfl | ⟨nonzero, rfl⟩
      · exact ⟨dense, rfl⟩
      by_cases vacant : children = []
      · subst vacant
        exact ⟨dense, rfl⟩
      obtain ⟨height, above⟩ : ∃ height, heightAbove children = height + 1 := ⟨_, rfl⟩
      have heights : ∀ child ∈ children, child.height = height := fun child inside =>
        Nat.succ.inj ((fitting child inside).2.trans above)
      have capacities : ∀ child ∈ children.dropLast, child.length = geometry.capacity height :=
        fun child inside =>
          heights child (List.dropLast_subset _ inside) ▸ full child inside
      have parts : ∀ part ∈ treesBefore geometry children count,
          part.isDense = true ∧ part.height = height := by
        refine forall_treesBefore ?_ count
        intro child inside count part left
        obtain ⟨partDense, same⟩ := ih child inside (fitting child inside).1 count part left
        exact ⟨partDense, same.trans (heights child inside)⟩
      refine ⟨isDense_makeNode (Nat.le_trans (length_treesBefore_le children count) fits)
        (fun part inside => (parts part inside).2) (fun part inside => (parts part inside).1)
        (length_of_mem_dropLast_treesBefore capacities count), ?_⟩
      exact (heightAbove_of_uniform (treesBefore_ne_nil vacant nonzero)
        fun part inside => (parts part inside).2).trans above.symm

/-- What is taken from the front of a tree has the elements before the cut. -/
theorem elementAt_take (made : Made geometry tree) (bounded : tree.length < 2 ^ Geometry.indexBits)
    {count index : Nat} (before : index < count) :
    (tree.take geometry count).elementAt geometry index = tree.elementAt geometry index := by
  have taken := made_take made count
  have kept := elements_take made count
  have shorter : (tree.take geometry count).length < 2 ^ Geometry.indexBits := by
    rw [made.length_eq] at bounded
    rw [taken.length_eq, kept, List.length_take]
    omega
  rw [taken.elementAt_eq shorter, made.elementAt_eq bounded]
  simp only [kept, List.length_take, List.getElem_take]
  by_cases inside : index < tree.elements.length
  · rw [dif_pos inside, dif_pos (Nat.lt_min.mpr ⟨before, inside⟩)]
  · rw [dif_neg inside, dif_neg fun both => inside (Nat.lt_min.mp both).2,
      Nat.min_eq_right (Nat.le_trans (Nat.le_of_not_lt inside) (Nat.le_of_lt before))]

/-- **Taking keeps a tree dense.** Whatever number of elements is taken from the front of a dense
tree, the tree of them is dense. Its elements are found by the digits of their indices, and are
those that the whole tree has there. -/
theorem dense_take (made : Made geometry tree) (dense : tree.isDense = true) (count : Nat) :
    (tree.take geometry count).isDense = true ∧
    (∀ index, (tree.take geometry count).elementAt geometry index =
      (tree.take geometry count).lookup index (digits? geometry)) ∧
    (tree.length < 2 ^ Geometry.indexBits → ∀ index < count,
      (tree.take geometry count).elementAt geometry index = tree.elementAt geometry index) := by
  have regular : (tree.take geometry count).isDense = true := by
    unfold take
    cases cut : tree.before? geometry count with
    | none => rfl
    | some front =>
        exact isDense_collapse ((pruned_before? made.counted count front cut).made made)
          (dense_before? made dense count front cut).1
  refine ⟨regular, fun index => ?_, fun bounded index before => elementAt_take made bounded before⟩
  rw [elementAt, if_pos regular]

end Taking

/-- Eleven units under a root of two nodes, cut inside the third chunk. Only the first node is left,
and its second leaf is short. -/
theorem dense_take_of_five :
    let small : Geometry := ⟨1, 1, by decide, by decide⟩
    let full : Tree UnitChunk := makeNode small
      [makeLeaf small [⟨[0, 1]⟩, ⟨[2, 3]⟩], makeLeaf small [⟨[4, 5]⟩, ⟨[6, 7]⟩]]
    let tree := makeNode small [full, makeNode small [makeLeaf small [⟨[8, 9]⟩, ⟨[10]⟩]]]
    (tree.isDense = true ∧ tree.height = 2) ∧
      ((tree.take small 5).isDense = true ∧ (tree.take small 5).height = 1) ∧
      (tree.take small 5).lookup 4 (digits? small) = .ok 4 := by
  intro small full tree
  have leaf (chunks : List UnitChunk) : Made small (makeLeaf small chunks) := .leaf chunks
  have made : Made small tree := by
    refine .node _ (List.forall_mem_cons.mpr
      ⟨.node _ ?_, List.forall_mem_singleton.mpr (.node _ ?_)⟩)
    · exact List.forall_mem_cons.mpr ⟨leaf _, List.forall_mem_singleton.mpr (leaf _)⟩
    · exact List.forall_mem_singleton.mpr (leaf _)
  have dense : tree.isDense = true := by decide
  obtain ⟨regular, digits, same⟩ := dense_take made dense 5
  refine ⟨⟨dense, by decide⟩, ⟨regular, by decide⟩, ?_⟩
  rw [← digits, same (by decide) 4 (by decide)]
  decide

end Tree
end GraphemeRope
