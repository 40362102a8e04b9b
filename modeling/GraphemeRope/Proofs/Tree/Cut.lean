import GraphemeRope.Proofs.Tree.Build
import GraphemeRope.Proofs.Tree.Counted
import GraphemeRope.Tree.Cut

/-! # Cutting trees

What is left of a tree with right lengths after a cut holds the elements on one side of it
(`GraphemeRope.Tree.Counted.elements_take`, `GraphemeRope.Tree.Counted.elements_drop`). What is left
of a uniform tree is a uniform tree of the same height, or nothing, and dropping the roots with a
single tree below them makes it well-formed.
-/

namespace GraphemeRope
namespace Tree

variable {α ε : Type} [Chunk α ε]

omit [Chunk α ε] in
theorem chunksOfAll_some (tree : Tree α) : chunksOfAll (some tree).toList = tree.chunks :=
  List.append_nil tree.chunks

/-- The elements of what is left, if a tree is, are those of the tree. -/
theorem elementsOf_some (tree : Tree α) :
    Chunk.elementsOf (chunksOfAll (some tree).toList) = tree.elements := by
  rw [chunksOfAll_some, elements_eq_elementsOf]

section Rows

/-- Of a row with chunks something is left before any position but the first. -/
theorem chunksBefore_ne_nil {row : List α} {count : Nat} (filled : row ≠ []) (nonzero : count ≠ 0) :
    chunksBefore row count ≠ [] := by
  obtain ⟨chunk, rest, rfl⟩ := List.exists_cons_of_ne_nil filled
  rw [chunksBefore, if_neg nonzero]
  split
  · exact List.cons_ne_nil _ _
  · exact List.cons_ne_nil _ _

/-- A cut leaves no more chunks before it than there were. -/
theorem length_chunksBefore_le (row : List α) (count : Nat) :
    (chunksBefore row count).length ≤ row.length := by
  induction row generalizing count with
  | nil => exact Nat.le_refl _
  | cons chunk rest ih =>
      unfold chunksBefore
      split
      · exact Nat.zero_le _
      · split
        · exact Nat.succ_le_succ (ih _)
        · exact Nat.succ_le_succ (Nat.zero_le _)

/-- Something is left of a row from a position inside it on. -/
theorem chunksFrom_ne_nil {row : List α} {start : Nat}
    (inside : start < total (row.map Chunk.length)) : chunksFrom row start ≠ [] := by
  induction row generalizing start with
  | nil => exact absurd inside (Nat.not_lt_zero _)
  | cons chunk rest ih =>
      unfold chunksFrom
      simp only [List.map_cons, total] at inside
      split
      · exact List.cons_ne_nil _ _
      · exact ih (by omega)

theorem length_chunksFrom_le (row : List α) (start : Nat) :
    (chunksFrom row start).length ≤ row.length := by
  induction row generalizing start with
  | nil => exact Nat.le_refl _
  | cons chunk rest ih =>
      unfold chunksFrom
      split
      · exact Nat.le_refl _
      · exact Nat.le_succ_of_le (ih _)

variable [LawfulChunk α]

/-- The chunks before a cut have the first elements. -/
theorem elementsOf_chunksBefore (row : List α) (count : Nat) :
    Chunk.elementsOf (chunksBefore row count) = (Chunk.elementsOf row).take count := by
  induction row generalizing count with
  | nil => exact List.take_nil.symm
  | cons chunk rest ih =>
      rw [chunksBefore, Chunk.elementsOf_cons, List.take_append]
      split
      · next zero => rw [zero, Nat.zero_sub, List.take_zero, List.take_zero]; rfl
      · split
        · next whole => rw [Chunk.elementsOf_cons, ih, List.take_of_length_le whole]; rfl
        · next partly =>
            have beyond : count - (Chunk.elements chunk).length = 0 :=
              Nat.sub_eq_zero_of_le (Nat.le_of_not_le partly)
            rw [beyond, List.take_zero, Chunk.elementsOf_cons, LawfulChunk.elements_take]
            rfl

/-- The chunks after a cut have the last elements. -/
theorem elementsOf_chunksFrom (row : List α) (start : Nat) :
    Chunk.elementsOf (chunksFrom row start) = (Chunk.elementsOf row).drop start := by
  induction row generalizing start with
  | nil => exact List.drop_nil.symm
  | cons chunk rest ih =>
      rw [chunksFrom, Chunk.elementsOf_cons, List.drop_append]
      split
      · next inside =>
          have before : start - (Chunk.elements chunk).length = 0 :=
            Nat.sub_eq_zero_of_le (Nat.le_of_lt inside)
          rw [before, List.drop_zero, Chunk.elementsOf_cons]
          split
          · next zero => rw [zero, List.drop_zero]
          · rw [LawfulChunk.elements_drop]
      · next outside =>
          rw [ih, List.drop_eq_nil_of_le (Nat.le_of_not_lt outside), List.nil_append]
          rfl

end Rows

section Front

variable {geometry : Geometry}

/-- A tree is left before any position but the first. -/
theorem exists_before? (geometry : Geometry) (tree : Tree α) {count : Nat} (nonzero : count ≠ 0) :
    ∃ front, tree.before? geometry count = Option.some front := by
  cases tree with
  | leaf measure chunks =>
      rw [before?, if_neg nonzero]
      split
      · exact ⟨_, rfl⟩
      · exact ⟨_, rfl⟩
  | node measure children =>
      rw [before?, if_neg nonzero]
      split
      · exact ⟨_, rfl⟩
      · exact ⟨_, rfl⟩

/-- What is left of a leaf before a cut is the leaf or a leaf of the chunks before the cut. -/
theorem mem_before?_leaf {measure : Measure} {chunks : List α} {count : Nat} {front : Tree α}
    (member : front ∈ (leaf measure chunks).before? geometry count) :
    front = leaf measure chunks ∨
      count ≠ 0 ∧ front = makeLeaf geometry (chunksBefore chunks count) := by
  unfold before? at member
  split at member
  · cases member
    exact .inl rfl
  · split at member
    · exact absurd member (Option.not_mem_none _)
    · next nonzero =>
        cases member
        exact .inr ⟨nonzero, rfl⟩

/-- What is left of a node before a cut is the node or a node over the trees before the cut. -/
theorem mem_before?_node {measure : Measure} {children : List (Tree α)} {count : Nat}
    {front : Tree α} (member : front ∈ (node measure children).before? geometry count) :
    front = node measure children ∨
      count ≠ 0 ∧ front = makeNode geometry (treesBefore geometry children count) := by
  unfold before? at member
  split at member
  · cases member
    exact .inl rfl
  · split at member
    · exact absurd member (Option.not_mem_none _)
    · next nonzero =>
        cases member
        exact .inr ⟨nonzero, rfl⟩

/-- Of a row with trees something is left before any position but the first. -/
theorem treesBefore_ne_nil {trees : List (Tree α)} {count : Nat} (filled : trees ≠ [])
    (nonzero : count ≠ 0) : treesBefore geometry trees count ≠ [] := by
  obtain ⟨tree, rest, rfl⟩ := List.exists_cons_of_ne_nil filled
  obtain ⟨front, cut⟩ := exists_before? geometry tree nonzero
  rw [treesBefore, if_neg nonzero, cut]
  exact List.cons_ne_nil _ _

/-- A cut leaves no more trees before it than there were. -/
theorem length_treesBefore_le (trees : List (Tree α)) (count : Nat) :
    (treesBefore geometry trees count).length ≤ trees.length := by
  induction trees generalizing count with
  | nil => exact Nat.le_refl _
  | cons tree rest ih =>
      unfold treesBefore
      split
      · exact Nat.zero_le _
      · have atMost := Option.length_toList_le (o := tree.before? geometry count)
        have later := ih (count - tree.length)
        simp only [List.length_append, List.length_cons]
        omega

/-- What holds of all that cuts leave before them in the trees of a row holds of what one leaves of
the row. -/
theorem forall_treesBefore {property : Tree α → Prop} {trees : List (Tree α)}
    (cut : ∀ tree ∈ trees, ∀ count, ∀ front ∈ tree.before? geometry count, property front)
    (count : Nat) : ∀ tree ∈ treesBefore geometry trees count, property tree := by
  induction trees generalizing count with
  | nil => exact List.forall_mem_nil _
  | cons tree rest ih =>
      rw [List.forall_mem_cons] at cut
      unfold treesBefore
      split
      · exact List.forall_mem_nil _
      · refine List.forall_mem_append.mpr ⟨?_, ih cut.2 _⟩
        intro front member
        exact cut.1 count front (Option.mem_toList.mp member)

/-- The trees before a cut have the first elements, if that is so of each of the row. -/
theorem elementsOf_treesBefore {trees : List (Tree α)}
    (right : ∀ tree ∈ trees, tree.length = tree.elements.length)
    (cut : ∀ tree ∈ trees, ∀ count, Chunk.elementsOf (chunksOfAll
      (tree.before? geometry count).toList) = tree.elements.take count)
    (count : Nat) : Chunk.elementsOf (chunksOfAll (treesBefore geometry trees count)) =
      (Chunk.elementsOf (chunksOfAll trees)).take count := by
  induction trees generalizing count with
  | nil => exact List.take_nil.symm
  | cons tree rest ih =>
      rw [List.forall_mem_cons] at right cut
      rw [treesBefore, chunksOfAll_cons, Chunk.elementsOf_append, List.take_append]
      split
      · next zero => rw [zero, Nat.zero_sub, List.take_zero, List.take_zero]; rfl
      · rw [chunksOfAll_append, Chunk.elementsOf_append, cut.1, ih right.2 cut.2, right.1]
        rfl

/-- What is left of a uniform tree before a cut is uniform, at the same height. -/
theorem uniform_before? {height : Nat} {tree : Tree α} (uniform : Uniform geometry height tree)
    (count : Nat) : ∀ front ∈ tree.before? geometry count, Uniform geometry height front := by
  induction tree generalizing height count with
  | leaf measure chunks =>
      obtain ⟨rfl, filled, fits⟩ := uniform.chunks
      intro front member
      rcases mem_before?_leaf member with rfl | ⟨nonzero, rfl⟩
      · exact uniform
      · exact .makeLeaf (chunksBefore_ne_nil filled nonzero)
          (Nat.le_trans (length_chunksBefore_le chunks count) fits)
  | node measure children ih =>
      obtain ⟨below, rfl, filled, fits, under⟩ := uniform.children
      intro front member
      rcases mem_before?_node member with rfl | ⟨nonzero, rfl⟩
      · exact uniform
      · refine .makeNode (forall_treesBefore ?_ count) (treesBefore_ne_nil filled nonzero)
          (Nat.le_trans (length_treesBefore_le children count) fits)
        intro child inside count
        exact ih child inside (under child inside) count

variable [LawfulChunk α]

/-- What is left of a counted tree before a cut has the first elements. -/
theorem elements_before? {tree : Tree α} (counted : Counted tree) (count : Nat) :
    Chunk.elementsOf (chunksOfAll (tree.before? geometry count).toList) =
      tree.elements.take count := by
  induction tree generalizing count with
  | leaf measure chunks =>
      have right := counted.length_eq_elements
      unfold before?
      split
      · next covered =>
          rw [elementsOf_some, List.take_of_length_le]
          exact right ▸ covered
      · split
        · next zero => rw [zero, List.take_zero]; rfl
        · rw [elementsOf_some, elements_eq_elementsOf, chunks_makeLeaf, elementsOf_chunksBefore]
          rfl
  | node measure children ih =>
      have right := counted.length_eq_elements
      have below := counted.forall_children
      unfold before?
      split
      · next covered =>
          rw [elementsOf_some, List.take_of_length_le]
          exact right ▸ covered
      · split
        · next zero => rw [zero, List.take_zero]; rfl
        · rw [elementsOf_some, elements_eq_elementsOf, chunks_makeNode, elementsOf_treesBefore
            (fun child member => (below child member).length_eq_elements)
            (fun child member count => ih child member (below child member) count)]
          rfl

end Front

section Rear

variable {geometry : Geometry}

/-- A tree is left from a position inside it on. -/
theorem exists_from? (geometry : Geometry) (tree : Tree α) {start : Nat}
    (inside : start < tree.length) : ∃ rear, tree.from? geometry start = some rear := by
  cases tree with
  | leaf measure chunks =>
      have cut : ¬measure.length ≤ start := Nat.not_le_of_lt inside
      rw [from?, if_neg cut]
      split
      · exact ⟨_, rfl⟩
      · exact ⟨_, rfl⟩
  | node measure children =>
      have cut : ¬measure.length ≤ start := Nat.not_le_of_lt inside
      rw [from?, if_neg cut]
      split
      · exact ⟨_, rfl⟩
      · exact ⟨_, rfl⟩

/-- What is left of a leaf after a cut is the leaf or a leaf of the chunks after the cut. -/
theorem mem_from?_leaf {measure : Measure} {chunks : List α} {start : Nat} {rear : Tree α}
    (member : rear ∈ (leaf measure chunks).from? geometry start) :
    rear = leaf measure chunks ∨
      start < measure.length ∧ rear = makeLeaf geometry (chunksFrom chunks start) := by
  unfold from? at member
  split at member
  · cases member
    exact .inl rfl
  · split at member
    · exact absurd member (Option.not_mem_none _)
    · next inside =>
        cases member
        exact .inr ⟨Nat.lt_of_not_le inside, rfl⟩

/-- What is left of a node after a cut is the node or a node over the trees after the cut. -/
theorem mem_from?_node {measure : Measure} {children : List (Tree α)} {start : Nat}
    {rear : Tree α} (member : rear ∈ (node measure children).from? geometry start) :
    rear = node measure children ∨
      start < measure.length ∧ rear = makeNode geometry (treesFrom geometry children start) := by
  unfold from? at member
  split at member
  · cases member
    exact .inl rfl
  · split at member
    · exact absurd member (Option.not_mem_none _)
    · next inside =>
        cases member
        exact .inr ⟨Nat.lt_of_not_le inside, rfl⟩

/-- Something is left of a row of trees from a position inside it on. -/
theorem treesFrom_ne_nil {trees : List (Tree α)} {start : Nat}
    (inside : start < total (trees.map length)) : treesFrom geometry trees start ≠ [] := by
  induction trees generalizing start with
  | nil => exact absurd inside (Nat.not_lt_zero _)
  | cons tree rest ih =>
      unfold treesFrom
      simp only [List.map_cons, total] at inside
      split
      · next here =>
          obtain ⟨rear, cut⟩ := exists_from? geometry tree here
          rw [cut]
          exact List.cons_ne_nil _ _
      · exact ih (by omega)

theorem length_treesFrom_le (trees : List (Tree α)) (start : Nat) :
    (treesFrom geometry trees start).length ≤ trees.length := by
  induction trees generalizing start with
  | nil => exact Nat.le_refl _
  | cons tree rest ih =>
      unfold treesFrom
      split
      · have atMost := Option.length_toList_le (o := tree.from? geometry start)
        simp only [List.length_append, List.length_cons]
        omega
      · exact Nat.le_succ_of_le (ih _)

/-- What holds of the trees of a row, and of all that cuts leave after them in each, holds of what
one leaves of the row. -/
theorem forall_treesFrom {property : Tree α → Prop} {trees : List (Tree α)}
    (kept : ∀ tree ∈ trees, property tree)
    (cut : ∀ tree ∈ trees, ∀ start, ∀ rear ∈ tree.from? geometry start, property rear)
    (start : Nat) : ∀ tree ∈ treesFrom geometry trees start, property tree := by
  induction trees generalizing start with
  | nil => exact List.forall_mem_nil _
  | cons tree rest ih =>
      rw [List.forall_mem_cons] at kept cut
      unfold treesFrom
      split
      · refine List.forall_mem_append.mpr ⟨?_, kept.2⟩
        intro rear member
        exact cut.1 start rear (Option.mem_toList.mp member)
      · exact ih kept.2 cut.2 _

/-- The trees after a cut have the last elements, if that is so of each of the row. -/
theorem elementsOf_treesFrom {trees : List (Tree α)}
    (right : ∀ tree ∈ trees, tree.length = tree.elements.length)
    (cut : ∀ tree ∈ trees, ∀ start, Chunk.elementsOf (chunksOfAll
      (tree.from? geometry start).toList) = tree.elements.drop start)
    (start : Nat) : Chunk.elementsOf (chunksOfAll (treesFrom geometry trees start)) =
      (Chunk.elementsOf (chunksOfAll trees)).drop start := by
  induction trees generalizing start with
  | nil => exact List.drop_nil.symm
  | cons tree rest ih =>
      rw [List.forall_mem_cons] at right cut
      rw [treesFrom, chunksOfAll_cons, Chunk.elementsOf_append, List.drop_append,
        ← elements_eq_elementsOf, ← right.1]
      split
      · next inside =>
          rw [chunksOfAll_append, Chunk.elementsOf_append, cut.1,
            Nat.sub_eq_zero_of_le (Nat.le_of_lt inside), List.drop_zero]
      · next outside =>
          have nothing : tree.elements.drop start = [] :=
            List.drop_eq_nil_of_le (right.1 ▸ Nat.le_of_not_lt outside)
          rw [ih right.2 cut.2, nothing, List.nil_append]

/-- What is left of a uniform tree after a cut is uniform, at the same height. -/
theorem uniform_from? {height : Nat} {tree : Tree α} (uniform : Uniform geometry height tree)
    (start : Nat) : ∀ rear ∈ tree.from? geometry start, Uniform geometry height rear := by
  induction tree generalizing height start with
  | leaf measure chunks =>
      obtain ⟨rfl, filled, fits⟩ := uniform.chunks
      have right : measure.length = total (chunks.map Chunk.length) :=
        uniform.length_eq.trans (Chunk.total_lengths chunks).symm
      intro rear member
      rcases mem_from?_leaf member with rfl | ⟨inside, rfl⟩
      · exact uniform
      · exact .makeLeaf (chunksFrom_ne_nil (right ▸ inside))
          (Nat.le_trans (length_chunksFrom_le chunks start) fits)
  | node measure children ih =>
      obtain ⟨below, rfl, filled, fits, under⟩ := uniform.children
      have lengths := total_lengths fun child inside => (under child inside).length_eq
      have right : measure.length = total (children.map length) :=
        uniform.length_eq.trans lengths.symm
      intro rear member
      rcases mem_from?_node member with rfl | ⟨inside, rfl⟩
      · exact uniform
      · refine .makeNode (forall_treesFrom under ?_ start) (treesFrom_ne_nil (right ▸ inside))
          (Nat.le_trans (length_treesFrom_le children start) fits)
        intro child inside start
        exact ih child inside (under child inside) start

variable [LawfulChunk α]

/-- What is left of a counted tree after a cut has the last elements. -/
theorem elements_from? {tree : Tree α} (counted : Counted tree) (start : Nat) :
    Chunk.elementsOf (chunksOfAll (tree.from? geometry start).toList) =
      tree.elements.drop start := by
  induction tree generalizing start with
  | leaf measure chunks =>
      have right := counted.length_eq_elements
      unfold from?
      split
      · next zero => rw [zero, List.drop_zero, elementsOf_some]
      · split
        · next covered => rw [List.drop_eq_nil_of_le (right ▸ covered)]; rfl
        · rw [elementsOf_some, elements_eq_elementsOf, chunks_makeLeaf, elementsOf_chunksFrom]
          rfl
  | node measure children ih =>
      have right := counted.length_eq_elements
      have below := counted.forall_children
      unfold from?
      split
      · next zero => rw [zero, List.drop_zero, elementsOf_some]
      · split
        · next covered => rw [List.drop_eq_nil_of_le (right ▸ covered)]; rfl
        · rw [elementsOf_some, elements_eq_elementsOf, chunks_makeNode, elementsOf_treesFrom
            (fun child member => (below child member).length_eq_elements)
            (fun child member start => ih child member (below child member) start)]
          rfl

end Rear

section Cut

variable {geometry : Geometry} {tree : Tree α}

theorem elements_collapse (tree : Tree α) : tree.collapse.elements = tree.elements := by
  rw [elements_eq_elementsOf, chunks_collapse, elements_eq_elementsOf]

/-- The front of a well-formed tree is well-formed. -/
theorem wellFormed_take (wellFormed : WellFormed geometry tree) (count : Nat) :
    WellFormed geometry (tree.take geometry count) := by
  unfold take
  cases wellFormed with
  | empty => exact .empty
  | uniform uniform _ =>
      cases cut : tree.before? geometry count with
      | none => exact .empty
      | some front => exact wellFormed_collapse (uniform_before? uniform count front cut)

theorem wellFormed_drop (wellFormed : WellFormed geometry tree) (start : Nat) :
    WellFormed geometry (tree.drop geometry start) := by
  unfold drop
  cases wellFormed with
  | empty =>
      rw [empty, from?]
      split
      · exact .empty
      · rw [if_pos (Nat.zero_le start)]
        exact .empty
  | uniform uniform _ =>
      cases cut : tree.from? geometry start with
      | none => exact .empty
      | some rear => exact wellFormed_collapse (uniform_from? uniform start rear cut)

variable [LawfulChunk α]

/-- **Taking.** The elements before a position are those of the tree of what is before it. -/
theorem Counted.elements_take (counted : Counted tree) (count : Nat) :
    (tree.take geometry count).elements = tree.elements.take count := by
  rw [take, elements_collapse, ← elements_before? counted]
  cases tree.before? geometry count with
  | none => rfl
  | some front => rw [elementsOf_some]; rfl

/-- **Dropping.** The elements from a position on are those of the tree of what is after it. -/
theorem Counted.elements_drop (counted : Counted tree) (start : Nat) :
    (tree.drop geometry start).elements = tree.elements.drop start := by
  rw [drop, elements_collapse, ← elements_from? counted]
  cases tree.from? geometry start with
  | none => rfl
  | some rear => rw [elementsOf_some]; rfl

/-- The front of a made tree has its first elements. -/
theorem elements_take (made : Made geometry tree) (count : Nat) :
    (tree.take geometry count).elements = tree.elements.take count :=
  made.counted.elements_take count

theorem elements_drop (made : Made geometry tree) (start : Nat) :
    (tree.drop geometry start).elements = tree.elements.drop start :=
  made.counted.elements_drop start

end Cut

end Tree
end GraphemeRope
