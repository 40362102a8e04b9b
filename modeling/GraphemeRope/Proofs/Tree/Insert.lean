import GraphemeRope.Proofs.Tree.Leveled
import GraphemeRope.Tree.Insert

/-! # Inserting content into trees

An insertion changes the chunks of one leaf of a tree (`GraphemeRope.Tree.putInto_inserted`): the
chunk that owns the position is cut there, and its two parts and the content are cut into chunks
anew. In a tree without empty leaves there always is such a chunk
(`GraphemeRope.Tree.recut_inserted`). Leaves and nodes that overflow are split, so that a
well-formed tree stays well-formed (`GraphemeRope.Tree.wellFormed_inserted`).
-/

namespace GraphemeRope

variable {α ε : Type} [Chunk α ε]

namespace Chunk

/-- Whether a row of chunks is another one with content put in at a position of it, either between
two chunks or within one, which is then cut anew together with the content. -/
inductive Placed (limit : Nat) (content : α) (row : List α) (index : Nat) (changed : List α) :
    Prop where
  | between (front rear : List α) (row_eq : row = front ++ rear)
      (index_eq : index = (elementsOf front).length)
      (changed_eq : changed = front ++ rechunk [content] limit ++ rear)
  | within (front rear : List α) (owner : α) (offset : Nat) (row_eq : row = front ++ owner :: rear)
      (index_eq : index = (elementsOf front).length + offset) (inside : offset ≤ length owner)
      (changed_eq : changed =
        front ++ rechunk [take owner offset, content, drop owner offset] limit ++ rear)

/-- Whether a row of chunks is another one in which only the chunk that owns a position was cut
anew, together with content that is put in there. -/
def Recut (limit : Nat) (content : α) (row : List α) (index : Nat) (changed : List α) : Prop :=
  ∃ front owner rear offset, row = front ++ owner :: rear ∧
    index = (elementsOf front).length + offset ∧ offset ≤ length owner ∧
    changed = front ++ rechunk [take owner offset, content, drop owner offset] limit ++ rear

/-- What can be said of a row, a position and the row with content put in there, if it is true of a
chunk that owns the position and of longer rows when it is of shorter ones. -/
structure Spreads (limit : Nat) (content : α) (holds : List α → Nat → List α → Prop) : Prop where
  owned (owner : α) {offset : Nat} (inside : offset ≤ length owner) :
    holds [owner] offset (rechunk [take owner offset, content, drop owner offset] limit)
  surround {row changed : List α} {index : Nat} (here : holds row index changed)
    (before after : List α) :
    holds (before ++ row ++ after) ((elementsOf before).length + index) (before ++ changed ++ after)

variable {limit index : Nat} {content : α} {row changed : List α}

/-- A row with content put in may be part of a longer row. -/
theorem Placed.surround (placed : Placed limit content row index changed)
    (before after : List α) :
    Placed limit content (before ++ row ++ after) ((elementsOf before).length + index)
      (before ++ changed ++ after) := by
  cases placed with
  | between front rear row_eq index_eq changed_eq =>
      refine .between (before ++ front) (rear ++ after) ?_ ?_ ?_
      · simp only [row_eq, List.append_assoc]
      · rw [elementsOf_append, List.length_append, index_eq]
      · simp only [changed_eq, List.append_assoc]
  | within front rear owner offset row_eq index_eq inside changed_eq =>
      refine .within (before ++ front) (rear ++ after) owner offset ?_ ?_ inside ?_
      · simp only [row_eq, List.append_assoc, List.cons_append]
      · rw [elementsOf_append, List.length_append, index_eq, Nat.add_assoc]
      · simp only [changed_eq, List.append_assoc]

/-- Where content was put in can be said of longer rows. -/
theorem spreads_placed (limit : Nat) (content : α) :
    Spreads limit content (Placed limit content) where
  owned owner {_} inside :=
    .within [] [] owner _ rfl (Nat.zero_add _).symm inside (List.append_nil _).symm
  surround placed := placed.surround

/-- Which chunk was cut anew can be said of longer rows. -/
theorem spreads_recut (limit : Nat) (content : α) :
    Spreads limit content (Recut limit content) where
  owned owner {offset} inside :=
    ⟨[], owner, [], offset, rfl, (Nat.zero_add _).symm, inside, (List.append_nil _).symm⟩
  surround := by
    rintro row changed index ⟨front, owner, rear, offset, rfl, rfl, inside, rfl⟩ before after
    refine ⟨before ++ front, owner, rear ++ after, offset, ?_, ?_, inside, ?_⟩
    · simp only [List.append_assoc, List.cons_append]
    · rw [elementsOf_append, List.length_append, Nat.add_assoc]
    · simp only [List.append_assoc]

/-- The chunks of a row with content put in are chunks of the row, or neither empty nor too long. -/
theorem Placed.forall_within [LawfulChunk α] {least : Nat} (cuttable : least ≤ 1)
    (placed : Placed limit content row index changed) (positive : 0 < limit)
    (within : ∀ chunk ∈ row, Within least limit chunk) :
    ∀ chunk ∈ changed, Within least limit chunk := by
  cases placed with
  | between front rear row_eq index_eq changed_eq =>
      rw [row_eq, List.forall_mem_append] at within
      rw [changed_eq, List.forall_mem_append, List.forall_mem_append]
      exact ⟨⟨within.1, within_rechunk cuttable positive _⟩, within.2⟩
  | within front rear owner offset row_eq index_eq inside changed_eq =>
      rw [row_eq, List.forall_mem_append, List.forall_mem_cons] at within
      rw [changed_eq, List.forall_mem_append, List.forall_mem_append]
      exact ⟨⟨within.1, within_rechunk cuttable positive _⟩, within.2.2⟩

end Chunk

namespace Tree

variable {geometry : Geometry}

section Spreads

variable {content : α} {holds : List α → Nat → List α → Prop}
  (spreads : Chunk.Spreads geometry.leafLength content holds)
include spreads

/-- What spreads from the owning chunk holds of a leaf with content put in, if it holds of a leaf
without chunks. -/
theorem insertedChunks_of_spreads {row : List α}
    (alone : row = [] → holds [] 0 (Chunk.rechunk [content] geometry.leafLength)) {index : Nat}
    (inside : index ≤ (Chunk.elementsOf row).length) :
    holds row index (insertedChunks geometry content row index) := by
  induction row generalizing index with
  | nil =>
      obtain rfl := Nat.le_zero.mp inside
      exact alone rfl
  | cons chunk rest ih =>
      rw [Chunk.elementsOf_cons, List.length_append, ← Chunk.length] at inside
      unfold insertedChunks
      split
      · next owned =>
          simp only [Bool.or_eq_true, decide_eq_true_eq, List.isEmpty_iff] at owned
          have here : index ≤ Chunk.length chunk := by
            rcases owned with before | rfl
            · exact before
            · exact inside
          have first := spreads.surround (spreads.owned chunk here) [] rest
          rw [Chunk.elementsOf_nil, List.length_nil, Nat.zero_add] at first
          exact first
      · next later =>
          simp only [Bool.or_eq_true, decide_eq_true_eq, List.isEmpty_iff, not_or] at later
          have beyond : index - Chunk.length chunk ≤ (Chunk.elementsOf rest).length := by omega
          have deeper := ih (fun nothing => absurd nothing later.2) beyond
          have further := spreads.surround deeper [chunk] []
          have shifted :
              (Chunk.elementsOf [chunk]).length + (index - Chunk.length chunk) = index := by
            rw [Chunk.elementsOf_cons, Chunk.elementsOf_nil, List.append_nil, ← Chunk.length]
            omega
          rw [shifted, List.append_nil, List.append_nil] at further
          exact further

end Spreads

/-- Content that has pieces leaves a leaf with chunks. -/
theorem insertedChunks_ne_nil [LawfulChunk α] {content : α}
    (filled : Chunk.rechunk [content] geometry.leafLength ≠ []) (row : List α) (index : Nat) :
    insertedChunks geometry content row index ≠ [] := by
  induction row generalizing index with
  | nil => exact filled
  | cons chunk rest ih =>
      unfold insertedChunks
      split
      · refine List.append_ne_nil_of_left_ne_nil ?_ _
        exact LawfulChunk.rechunk_ne_nil (List.mem_cons_of_mem _ List.mem_cons_self) filled
      · exact List.cons_ne_nil _ _

mutual

/-- The chunks of the leaf that takes content put in at a position of a tree. A node without trees
below it takes it as an empty leaf does. -/
def owningLeaf : Tree α → Nat → List α
  | .leaf _ chunks, _ => chunks
  | .node _ children, index => owningLeafIn children index

/-- The chunks of the leaf that takes content put in at a position of a row of trees. -/
def owningLeafIn : List (Tree α) → Nat → List α
  | [], _ => []
  | tree :: rest, index =>
      if index ≤ tree.length || rest.isEmpty then tree.owningLeaf index
      else owningLeafIn rest (index - tree.length)

end

/-- Whether a row of chunks is another one with content put into the chunks of a leaf, which stand
somewhere in it. -/
inductive PutInto (geometry : Geometry) (content : α) (leaf row : List α) (index : Nat)
    (changed : List α) : Prop where
  | intro (front rear : List α) (inner : Nat) (row_eq : row = front ++ leaf ++ rear)
      (index_eq : index = (Chunk.elementsOf front).length + inner)
      (inside : inner ≤ (Chunk.elementsOf leaf).length)
      (changed_eq : changed = front ++ insertedChunks geometry content leaf inner ++ rear)

section PutInto

variable {content : α} {leaf row changed : List α} {index : Nat}

/-- A row in which a leaf takes content may be part of a longer row. -/
theorem PutInto.surround (put : PutInto geometry content leaf row index changed)
    (before after : List α) :
    PutInto geometry content leaf (before ++ row ++ after)
      ((Chunk.elementsOf before).length + index) (before ++ changed ++ after) := by
  obtain ⟨front, rear, inner, rfl, rfl, inside, rfl⟩ := put
  refine ⟨before ++ front, rear ++ after, inner, ?_, ?_, inside, ?_⟩
  · simp only [List.append_assoc]
  · rw [Chunk.elementsOf_append, List.length_append, Nat.add_assoc]
  · simp only [List.append_assoc]

/-- What spreads from the owning chunk holds of a row whose owning leaf took the content. -/
theorem PutInto.of_spreads {holds : List α → Nat → List α → Prop}
    (put : PutInto geometry content leaf row index changed)
    (spreads : Chunk.Spreads geometry.leafLength content holds)
    (alone : leaf = [] → holds [] 0 (Chunk.rechunk [content] geometry.leafLength)) :
    holds row index changed := by
  obtain ⟨front, rear, inner, rfl, rfl, inside, rfl⟩ := put
  exact spreads.surround (insertedChunks_of_spreads spreads alone inside) front rear

/-- Content put into a row goes into the leaf that owns the position, if that is so in each of its
trees. -/
theorem putInto_insertedIn {trees : List (Tree α)}
    (right : ∀ tree ∈ trees, tree.length = tree.elements.length)
    (put : ∀ tree ∈ trees, ∀ index ≤ tree.length,
      PutInto geometry content (tree.owningLeaf index) tree.chunks index
        (chunksOfAll (tree.inserted geometry content index)))
    {index : Nat} (inside : index ≤ (Chunk.elementsOf (chunksOfAll trees)).length) :
    PutInto geometry content (owningLeafIn trees index) (chunksOfAll trees) index
      (chunksOfAll (insertedIn geometry content trees index)) := by
  induction trees generalizing index with
  | nil =>
      obtain rfl := Nat.le_zero.mp inside
      rw [insertedIn, chunksOfAll_leaves]
      exact ⟨[], [], 0, rfl, rfl, Nat.le_refl 0, (List.append_nil _).symm⟩
  | cons tree rest ih =>
      rw [List.forall_mem_cons] at right put
      rw [chunksOfAll_cons, Chunk.elementsOf_append, List.length_append,
        ← elements_eq_elementsOf, ← right.1] at inside
      unfold insertedIn owningLeafIn
      split
      · next owned =>
          simp only [Bool.or_eq_true, decide_eq_true_eq, List.isEmpty_iff] at owned
          have here : index ≤ tree.length := by
            rcases owned with before | rfl
            · exact before
            · exact inside
          have first := (put.1 index here).surround [] (chunksOfAll rest)
          simp only [Chunk.elementsOf_nil, List.length_nil, Nat.zero_add] at first
          simp only [chunksOfAll_append, chunksOfAll_cons]
          exact first
      · next later =>
          simp only [Bool.or_eq_true, decide_eq_true_eq, List.isEmpty_iff, not_or] at later
          have beyond : index - tree.length ≤ (Chunk.elementsOf (chunksOfAll rest)).length := by
            omega
          have further := (ih right.2 put.2 beyond).surround tree.chunks []
          have shifted : (Chunk.elementsOf tree.chunks).length + (index - tree.length) = index := by
            rw [← elements_eq_elementsOf, ← right.1]
            omega
          rw [shifted, List.append_nil, List.append_nil] at further
          exact further

/-- **Insertion is local.** Content put into a tree is put into the chunks of one leaf. -/
theorem putInto_inserted (content : α) {tree : Tree α} (counted : Counted tree) {index : Nat}
    (inside : index ≤ tree.length) :
    PutInto geometry content (tree.owningLeaf index) tree.chunks index
      (chunksOfAll (tree.inserted geometry content index)) := by
  induction tree generalizing index with
  | leaf measure chunks =>
      rw [counted.length_eq_elements] at inside
      rw [inserted, chunksOfAll_leaves]
      exact ⟨[], [], index, (List.append_nil _).symm, (Nat.zero_add _).symm, inside,
        (List.append_nil _).symm⟩
  | node measure children ih =>
      rw [counted.length_eq_elements] at inside
      rw [inserted, chunksOfAll_regroup, chunks_node]
      refine putInto_insertedIn ?_ ?_ inside
      · intro child member
        exact (counted.forall_children child member).length_eq_elements
      · intro child member index within
        exact ih child member (counted.forall_children child member) within

end PutInto

/-- The leaf of a row that owns a position has chunks, if that is so in each of its trees. -/
theorem owningLeafIn_ne_nil {trees : List (Tree α)} (filled : trees ≠ [])
    (each : ∀ tree ∈ trees, ∀ index, tree.owningLeaf index ≠ []) (index : Nat) :
    owningLeafIn trees index ≠ [] := by
  induction trees generalizing index with
  | nil => exact absurd rfl filled
  | cons tree rest ih =>
      rw [List.forall_mem_cons] at each
      unfold owningLeafIn
      split
      · exact each.1 index
      · next later =>
          simp only [Bool.or_eq_true, List.isEmpty_iff, not_or] at later
          exact ih later.2 each.2 _

/-- No leaf of a uniform tree is empty. -/
theorem Uniform.owningLeaf_ne_nil {height : Nat} {tree : Tree α}
    (uniform : Uniform geometry height tree) (index : Nat) : tree.owningLeaf index ≠ [] := by
  induction uniform generalizing index with
  | leaf _ _ filled _ => exact filled
  | node _ _ filled _ _ ih => exact owningLeafIn_ne_nil filled ih index

/-- Content put into a tree is put into its row of chunks. -/
theorem placed_inserted (content : α) {tree : Tree α} (counted : Counted tree) {index : Nat}
    (inside : index ≤ tree.length) :
    Chunk.Placed geometry.leafLength content tree.chunks index
      (chunksOfAll (tree.inserted geometry content index)) := by
  apply (putInto_inserted content counted inside).of_spreads (Chunk.spreads_placed _ _)
  intro _
  exact .between [] [] rfl rfl (List.append_nil _).symm

/-- **Insertion cuts one chunk.** In a uniform tree no leaf is empty, so there always is a chunk
that owns the position. -/
theorem recut_inserted (content : α) {height : Nat} {tree : Tree α}
    (uniform : Uniform geometry height tree) {index : Nat} (inside : index ≤ tree.length) :
    Chunk.Recut geometry.leafLength content tree.chunks index
      (chunksOfAll (tree.inserted geometry content index)) := by
  apply (putInto_inserted content uniform.counted inside).of_spreads (Chunk.spreads_recut _ _)
  intro vacant
  exact absurd vacant (uniform.owningLeaf_ne_nil index)

/-- What holds of the trees of a row, and of the siblings that replace each, holds of the row with
content put in. -/
theorem forall_insertedIn {property : Tree α → Prop} (content : α) {trees : List (Tree α)}
    (alone : trees = [] →
      ∀ tree ∈ leaves geometry (Chunk.rechunk [content] geometry.leafLength), property tree)
    (kept : ∀ tree ∈ trees, property tree)
    (put : ∀ tree ∈ trees, ∀ index, ∀ sibling ∈ tree.inserted geometry content index,
      property sibling) (index : Nat) :
    ∀ tree ∈ insertedIn geometry content trees index, property tree := by
  induction trees generalizing index with
  | nil => exact alone rfl
  | cons tree rest ih =>
      rw [List.forall_mem_cons] at kept put
      unfold insertedIn
      split
      · exact List.forall_mem_append.mpr ⟨put.1 index, kept.2⟩
      · next later =>
          simp only [Bool.or_eq_true, List.isEmpty_iff, not_or] at later
          exact List.forall_mem_cons.mpr
            ⟨kept.1, ih (fun nothing => absurd nothing later.2) kept.2 put.2 _⟩

/-- What replaces a made tree when content is put in is made. -/
theorem made_inserted (content : α) {tree : Tree α} (made : Made geometry tree) (index : Nat) :
    ∀ sibling ∈ tree.inserted geometry content index, Made geometry sibling := by
  induction tree generalizing index with
  | leaf measure chunks => exact made_leaves geometry _
  | node measure children ih =>
      apply made_regroup
      refine forall_insertedIn content ?_ made.children ?_ index
      · intro _
        exact made_leaves geometry _
      · intro child member index
        exact ih child member (made.children child member) index

/-- The siblings that replace a tree are of its height. -/
theorem Graded.inserted {holds : Nat → Tree α → Prop} (graded : Graded geometry holds)
    (content : α) {height : Nat} {tree : Tree α} (whole : holds height tree) (index : Nat) :
    ∀ sibling ∈ tree.inserted geometry content index, holds height sibling := by
  induction tree generalizing height index with
  | leaf measure chunks =>
      obtain rfl := graded.height_leaf whole
      exact graded.leaves _
  | node measure children ih =>
      obtain ⟨below, rfl, filled, under⟩ := graded.children whole
      apply graded.regroup
      refine forall_insertedIn content ?_ under ?_ index
      · intro nothing
        exact absurd nothing filled
      · intro child member index
        exact ih child member (under child member) index

/-- What replaces a uniform tree when content is put in is uniform, at the same height. -/
theorem uniform_inserted (content : α) {height : Nat} {tree : Tree α}
    (uniform : Uniform geometry height tree) (index : Nat) :
    ∀ sibling ∈ tree.inserted geometry content index, Uniform geometry height sibling :=
  (graded_uniform geometry).inserted content uniform index

section Shape

variable [LawfulChunk α] {content : α}

/-- A tree into which content with pieces is put is replaced by at least one. -/
theorem inserted_ne_nil (filled : Chunk.rechunk [content] geometry.leafLength ≠ [])
    (tree : Tree α) (index : Nat) : tree.inserted geometry content index ≠ [] := by
  induction tree generalizing index with
  | leaf measure chunks =>
      rw [inserted, leaves, ne_eq, List.map_eq_nil_iff]
      intro nothing
      exact insertedChunks_ne_nil filled chunks index (groups_eq_nil nothing)
  | node measure children ih =>
      rw [inserted, regroup, ne_eq, List.map_eq_nil_iff]
      intro nothing
      have vacant := groups_eq_nil nothing
      cases children with
      | nil =>
          rw [insertedIn, leaves, List.map_eq_nil_iff] at vacant
          exact filled (groups_eq_nil vacant)
      | cons tree rest =>
          unfold insertedIn at vacant
          split at vacant
          · exact ih tree List.mem_cons_self index (List.append_eq_nil_iff.mp vacant).1
          · exact List.cons_ne_nil _ _ vacant

/-- A row into which content with pieces is put does not get shorter. -/
theorem length_le_length_insertedIn (filled : Chunk.rechunk [content] geometry.leafLength ≠ [])
    (trees : List (Tree α)) (index : Nat) :
    trees.length ≤ (insertedIn geometry content trees index).length := by
  induction trees generalizing index with
  | nil => exact Nat.zero_le _
  | cons tree rest ih =>
      unfold insertedIn
      split
      · have positive := List.length_pos_iff.mpr (inserted_ne_nil filled tree index)
        simp only [List.length_append, List.length_cons]
        omega
      · exact Nat.succ_le_succ (ih _)

/-- **Insertion keeps the shape.** The siblings that replace a well-formed tree make a well-formed
tree. -/
theorem wellFormed_inserted {tree : Tree α} (wellFormed : WellFormed geometry tree)
    (filled : Chunk.rechunk [content] geometry.leafLength ≠ []) (index : Nat) :
    WellFormed geometry (ofSiblings geometry (tree.inserted geometry content index)) := by
  cases wellFormed with
  | empty => exact wellFormed_ofSiblings_of_leaves (uniform_leaves geometry _)
  | uniform uniform branches =>
      cases uniform with
      | leaf _ _ _ _ => exact wellFormed_ofSiblings_of_leaves (uniform_leaves geometry _)
      | @node below _ children _ _ several _ under =>
          have more := length_le_length_insertedIn filled children index
          have positive := List.length_pos_iff.mpr several
          have siblings : ∀ sibling ∈ insertedIn geometry content children index,
              Uniform geometry below sibling := by
            refine forall_insertedIn content ?_ under ?_ index
            · intro nothing
              exact absurd nothing several
            · intro child member index
              exact uniform_inserted content (under child member) index
          rw [Tree.children] at branches
          exact wellFormed_ofSiblings_regroup siblings (by omega)

end Shape

end Tree
end GraphemeRope
