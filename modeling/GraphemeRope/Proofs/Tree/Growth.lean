import GraphemeRope.Proofs.Tree.Packing

/-! # How high a tree grows

A node that overflows is cut into a full one and one with what is left over. The full one stays at
the left, so that content put in there again and again makes every node on the left edge overflow
each time, and the root gets one more slot by it (`GraphemeRope.Tree.Towering.insert`). The height
grows with the number of insertions then, and not with its logarithm.
-/

namespace GraphemeRope
namespace Tree

variable {α ε : Type} [Chunk α ε] {geometry : Geometry} {chunk content : α} {tree : Tree α}

/-- Whether a tree has so many slots in use, all slots of the nodes on its left edge below the root,
and a given chunk at its left end. -/
inductive LeftEdge (geometry : Geometry) (chunk : α) : Nat → Tree α → Prop where
  | leaf {measure : Measure} (rest : List α) :
      LeftEdge geometry chunk (rest.length + 1) (.leaf measure (chunk :: rest))
  | node {measure : Measure} {first : Tree α} (rest : List (Tree α))
      (below : LeftEdge geometry chunk geometry.branching first) :
      LeftEdge geometry chunk (rest.length + 1) (.node measure (first :: rest))

namespace LeftEdge

variable {slots : Nat}

/-- A leaf that begins with the chunk has it at its left end. -/
theorem makeLeaf (geometry : Geometry) (chunks : List α) (first : chunks.head? = some chunk) :
    LeftEdge geometry chunk chunks.length (makeLeaf geometry chunks) := by
  obtain ⟨rest, rfl⟩ := List.head?_eq_some_iff.mp first
  exact .leaf rest

/-- A node whose first tree is full on its left edge has that edge below it. -/
theorem makeNode (children : List (Tree α)) {first : Tree α}
    (leftmost : children.head? = some first)
    (below : LeftEdge geometry chunk geometry.branching first) :
    LeftEdge geometry chunk children.length (makeNode geometry children) := by
  obtain ⟨rest, rfl⟩ := List.head?_eq_some_iff.mp leftmost
  exact .node rest below

end LeftEdge

/-- Whether content put in before a chunk leaves that chunk and a second one with what is over. -/
def Overflows (geometry : Geometry) (chunk content : α) : Prop :=
  ∃ second, Chunk.rechunk [Chunk.take chunk 0, content, Chunk.drop chunk 0] geometry.leafLength =
    [chunk, second]

/-- Content at the start of a row goes into its first tree. -/
theorem insertedIn_zero (content : α) (first : Tree α) (rest : List (Tree α)) :
    insertedIn geometry content (first :: rest) 0 = first.inserted geometry content 0 ++ rest := by
  rw [insertedIn, decide_eq_true (Nat.zero_le _), Bool.true_or, if_pos rfl]

section Insertion

variable (overflows : Overflows geometry chunk content)
include overflows

/-- An overflowing leaf gets a second chunk behind its first. -/
theorem insertedChunks_of_overflows (rest : List α) :
    ∃ second, insertedChunks geometry content (chunk :: rest) 0 = chunk :: second :: rest := by
  obtain ⟨second, cut⟩ := overflows
  have here : (decide (0 ≤ Chunk.length chunk) || rest.isEmpty) = true := by
    rw [decide_eq_true (Nat.zero_le _), Bool.true_or]
  rw [insertedChunks, if_pos here, cut]
  exact ⟨second, rfl⟩

/-- **Overflow.** A tree whose left edge is full, its root included, becomes two, the first of which
has a full left edge again. -/
theorem LeftEdge.inserted_of_full (full : LeftEdge geometry chunk geometry.branching tree) :
    ∃ first second, tree.inserted geometry content 0 = [first, second] ∧
      LeftEdge geometry chunk geometry.branching first := by
  generalize slots_eq : geometry.branching = slots at full
  induction full with
  | leaf rest =>
      obtain ⟨second, put⟩ := insertedChunks_of_overflows overflows rest
      have long : (chunk :: second :: rest).length = geometry.branching + 1 := by
        rw [slots_eq]
        rfl
      obtain ⟨front, last, cut, fits, head⟩ :=
        exists_groups_of_length_eq_succ geometry.branching_pos long
      have edge := LeftEdge.makeLeaf geometry front head
      rw [fits, slots_eq] at edge
      refine ⟨Tree.makeLeaf geometry front, Tree.makeLeaf geometry [last], ?_, edge⟩
      rw [inserted, put, leaves, cut]
      rfl
  | node rest below ih =>
      obtain ⟨first, second, put, below⟩ := ih rfl
      have long : (first :: second :: rest).length = geometry.branching + 1 := by
        rw [slots_eq]
        rfl
      obtain ⟨front, last, cut, fits, head⟩ :=
        exists_groups_of_length_eq_succ geometry.branching_pos long
      have edge := LeftEdge.makeNode front head below
      rw [fits, slots_eq] at edge
      refine ⟨Tree.makeNode geometry front, Tree.makeNode geometry [last], ?_, edge⟩
      rw [inserted, insertedIn_zero, put, regroup]
      exact congrArg (List.map _) cut

/-- A root with room for one more takes what overflows below it. -/
theorem LeftEdge.inserted_of_room {slots : Nat} (edge : LeftEdge geometry chunk slots tree)
    (room : slots < geometry.branching) :
    ∃ next, tree.inserted geometry content 0 = [next] ∧
      LeftEdge geometry chunk (slots + 1) next := by
  cases edge with
  | leaf rest =>
      obtain ⟨second, put⟩ := insertedChunks_of_overflows overflows rest
      refine ⟨_, ?_, LeftEdge.makeLeaf geometry (chunk :: second :: rest) rfl⟩
      rw [inserted, put, leaves, groups_of_length_le (List.cons_ne_nil _ _) room]
      rfl
  | node rest below =>
      obtain ⟨first, second, put, edge⟩ := below.inserted_of_full overflows
      refine ⟨_, ?_, LeftEdge.makeNode (first :: second :: rest) rfl edge⟩
      rw [inserted, insertedIn_zero, put, regroup]
      exact congrArg (List.map _) (groups_of_length_le (List.cons_ne_nil _ _) room)

end Insertion

/-- Whether a tree has come from a full leaf by so many overflows of its left edge. Each of them
took one more slot of the root, or made a new root with two. -/
def Towering (geometry : Geometry) (chunk : α) (count : Nat) (tree : Tree α) : Prop :=
  ∃ height slots, Uniform geometry height tree ∧ LeftEdge geometry chunk slots tree ∧
    2 ≤ slots ∧ slots ≤ geometry.branching ∧
    height * (geometry.branching - 1) + slots = geometry.branching + count

namespace Towering

/-- **Linear growth.** A tree that towers is one higher for each time that the slots of a root but
the first were taken. -/
theorem height_bounds {count : Nat} (towering : Towering geometry chunk count tree) :
    count ≤ tree.height * (geometry.branching - 1) ∧
      tree.height * (geometry.branching - 1) < count + (geometry.branching - 1) := by
  obtain ⟨height, slots, uniform, _, least, most, sum⟩ := towering
  rw [uniform.height_eq]
  omega

/-- A leaf whose slots are all filled towers before anything is put in. -/
theorem makeLeaf {chunks : List α} (first : chunks.head? = some chunk)
    (full : chunks.length = geometry.branching) :
    Towering geometry chunk 0 (makeLeaf geometry chunks) := by
  have edge := LeftEdge.makeLeaf geometry chunks first
  have filled : chunks ≠ [] := List.length_pos_iff.mp (full ▸ geometry.branching_pos)
  refine ⟨0, geometry.branching, .makeLeaf filled (Nat.le_of_eq full), full ▸ edge,
    geometry.two_le_branching, Nat.le_refl _, ?_⟩
  omega

/-- **One more overflow.** -/
theorem insert {count : Nat} (overflows : Overflows geometry chunk content)
    (towering : Towering geometry chunk count tree) :
    Towering geometry chunk (count + 1)
      (ofSiblings geometry (tree.inserted geometry content 0)) := by
  obtain ⟨height, slots, uniform, edge, least, most, sum⟩ := towering
  have siblings := uniform_inserted content uniform 0
  by_cases room : slots < geometry.branching
  · obtain ⟨next, single, grown⟩ := edge.inserted_of_room overflows room
    rw [single, List.forall_mem_singleton] at siblings
    rw [single, ofSiblings]
    exact ⟨height, slots + 1, siblings, grown, Nat.le_succ_of_le least, room, by omega⟩
  · obtain rfl : slots = geometry.branching := Nat.le_antisymm most (Nat.le_of_not_lt room)
    obtain ⟨first, second, both, grown⟩ := edge.inserted_of_full overflows
    have fits : [first, second].length ≤ geometry.branching := least
    have root : regroup geometry [first, second] = [makeNode geometry [first, second]] :=
      congrArg (List.map _) (groups_of_length_le (List.cons_ne_nil _ _) fits)
    rw [both] at siblings
    rw [both, ofSiblings, root, ofSiblings]
    refine ⟨height + 1, 2, .makeNode siblings (List.cons_ne_nil _ _) fits,
      LeftEdge.makeNode [first, second] rfl grown, Nat.le_refl 2, least, ?_⟩
    rw [Nat.succ_mul]
    omega

end Towering

end Tree
end GraphemeRope
