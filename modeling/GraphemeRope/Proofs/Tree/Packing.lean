import GraphemeRope.Proofs.Tree.Region

/-! # Trees with every node filled from the left

The tree over a row of chunks is the single tree that is left of its *levels*: the leaves that are
filled from the left with the chunks, the parents filled from the left with these, and so on. Chunks
put after the row change only the last tree of each level, and they change it as joining changes the
right edge of a tree. So a row of chunks can be put into a tree in parts, a node of them at a time
(`GraphemeRope.Tree.append_ofChunks`) or one by one (`GraphemeRope.Tree.pushAll_ofChunks`), and the
tree is the one over all chunks at once.
-/

namespace GraphemeRope
namespace Tree

variable {α ε : Type} [Chunk α ε] {geometry : Geometry} {chunks more : List α}

/-- The trees of a height over a row of chunks, with every node filled from the left. -/
def level (geometry : Geometry) (chunks : List α) : Nat → List (Tree α)
  | 0 => leaves geometry chunks
  | height + 1 => regroup geometry (level geometry chunks height)

theorem chunksOfAll_level (geometry : Geometry) (chunks : List α) (height : Nat) :
    chunksOfAll (level geometry chunks height) = chunks := by
  induction height with
  | zero => exact chunksOfAll_leaves geometry chunks
  | succ height ih => rw [level, chunksOfAll_regroup, ih]

theorem made_level (geometry : Geometry) (chunks : List α) (height : Nat) :
    ∀ tree ∈ level geometry chunks height, Made geometry tree := by
  induction height with
  | zero => exact made_leaves geometry chunks
  | succ height ih => exact made_regroup ih

/-- The trees over chunks at a height are uniform, and of that height. -/
theorem uniform_level (geometry : Geometry) (chunks : List α) (height : Nat) :
    ∀ tree ∈ level geometry chunks height, Uniform geometry height tree := by
  induction height with
  | zero => exact uniform_leaves geometry chunks
  | succ height ih => exact uniform_regroup ih

/-- Over chunks there is a tree at any height. -/
theorem level_ne_nil (geometry : Geometry) (filled : chunks ≠ []) (height : Nat) :
    level geometry chunks height ≠ [] := by
  intro nothing
  have kept := chunksOfAll_level geometry chunks height
  rw [nothing, chunksOfAll_nil] at kept
  exact filled kept.symm

omit [Chunk α ε] in
/-- Several siblings are put under parents first. -/
theorem ofSiblings_of_several {siblings : List (Tree α)} (several : 2 ≤ siblings.length) :
    ofSiblings geometry siblings = ofSiblings geometry (regroup geometry siblings) := by
  match siblings, several with
  | first :: second :: rest, _ => rw [ofSiblings]

/-- A tree over chunks can be stacked from any of its levels that has no single tree below it. -/
theorem ofChunks_eq_ofSiblings_level {height : Nat}
    (several : ∀ lower < height, 2 ≤ (level geometry chunks lower).length) :
    ofChunks geometry chunks = ofSiblings geometry (level geometry chunks height) := by
  induction height with
  | zero => rfl
  | succ height ih =>
      rw [ih fun lower below => several lower (Nat.lt_succ_of_lt below),
        ofSiblings_of_several (several height (Nat.lt_succ_self height)), level]

/-- The tree over a row of chunks is the first single tree of its levels. -/
theorem exists_level_eq_singleton (geometry : Geometry) (filled : chunks ≠ []) :
    ∃ height, level geometry chunks height = [ofChunks geometry chunks] ∧
      ∀ lower < height, 2 ≤ (level geometry chunks lower).length := by
  have climb (siblings : List (Tree α)) (height : Nat)
      (reached : level geometry chunks height = siblings)
      (several : ∀ lower < height, 2 ≤ (level geometry chunks lower).length) :
      ∃ top, level geometry chunks top = [ofSiblings geometry siblings] ∧
        ∀ lower < top, 2 ≤ (level geometry chunks lower).length := by
    induction siblings using ofSiblings.induct geometry generalizing height with
    | case1 => exact absurd reached (level_ne_nil geometry filled height)
    | case2 only =>
        rw [ofSiblings]
        exact ⟨height, reached, several⟩
    | case3 first second rest ih =>
        rw [ofSiblings]
        refine ih (height + 1) (by rw [level, reached]) fun lower below => ?_
        rcases Nat.lt_succ_iff_lt_or_eq.mp below with lower' | rfl
        · exact several lower lower'
        · rw [reached]
          exact Nat.le_add_left 2 rest.length
  exact climb _ 0 rfl fun lower below => absurd below (Nat.not_lt_zero lower)

/-- Only the last tree of a row changes. -/
theorem extendedLast_append (rear : Tree α) (front : List (Tree α)) {siblings : List (Tree α)}
    (filled : siblings ≠ []) :
    extendedLast geometry rear (front ++ siblings) =
      front ++ extendedLast geometry rear siblings := by
  rcases eq_nil_or_exists_last siblings with nothing | ⟨others, last, rfl⟩
  · exact absurd nothing filled
  · rw [← List.append_assoc, extendedLast_concat, extendedLast_concat, List.append_assoc]

/-- **The right edge of a level.** A leaf that is put after the last tree of a level makes it the
level of all chunks. -/
theorem extendedLast_level (geometry : Geometry) (filled : chunks ≠ []) (more : List α)
    (height : Nat) :
    extendedLast geometry (makeLeaf geometry more) (level geometry chunks height) =
      level geometry (chunks ++ more) height := by
  induction height with
  | zero =>
      obtain ⟨blocks, last, cut, joined, _, full⟩ :=
        exists_last_group geometry.branching_pos filled
      have edge : extended geometry (makeLeaf geometry more) (makeLeaf geometry last) =
          leaves geometry (last ++ more) := rfl
      simp only [level, leaves, cut, List.map_append, List.map_cons, List.map_nil,
        extendedLast_concat, edge]
      rw [joined, List.append_assoc, groups_flatten_append geometry.branching_pos full,
        List.map_append]
  | succ height ih =>
      have several := level_ne_nil geometry filled height
      rw [level, level, ← ih]
      generalize level geometry chunks height = siblings at several ⊢
      obtain ⟨blocks, last, cut, joined, ends, full⟩ :=
        exists_last_group geometry.branching_pos several
      have edge : extended geometry (makeLeaf geometry more) (makeNode geometry last) =
          regroup geometry (extendedLast geometry (makeLeaf geometry more) last) := by
        unfold makeNode extended
        exact if_neg (Nat.ne_of_gt (heightAbove_pos last))
      -- The row below goes on after full blocks, so their parents stay.
      rw [regroup, cut, List.map_append, List.map_singleton, extendedLast_concat, edge, joined,
        extendedLast_append _ _ ends, regroup, regroup,
        groups_flatten_append geometry.branching_pos full, List.map_append]

/-- A leaf put after a tree that is filled from the left makes the tree filled from the left with
the chunks of both. -/
theorem ofSiblings_extended_ofChunks (filled : chunks ≠ []) (more : List α) :
    ofSiblings geometry (extended geometry (makeLeaf geometry more) (ofChunks geometry chunks)) =
      ofChunks geometry (chunks ++ more) := by
  obtain ⟨height, top, several⟩ := exists_level_eq_singleton geometry filled
  have edge := extendedLast_level geometry filled more height
  rw [top, extendedLast] at edge
  rw [edge]
  refine (ofChunks_eq_ofSiblings_level fun lower below => ?_).symm
  rw [← extendedLast_level geometry filled]
  exact Nat.le_trans (several lower below) (length_le_length_extendedLast (.leaf more)
    (made_level geometry chunks lower) (uniform_level geometry chunks lower))

/-- The tree over chunks that have elements is not empty. -/
theorem not_isEmpty_ofChunks (geometry : Geometry) (filled : chunks ≠ [])
    (inhabited : ∀ chunk ∈ chunks, 0 < Chunk.length chunk) :
    ¬(ofChunks geometry chunks).isEmpty = true := by
  rw [(made_ofChunks geometry chunks).isEmpty_iff, elements_eq_elementsOf, chunks_ofChunks]
  obtain ⟨chunk, rest, rfl⟩ := List.exists_cons_of_ne_nil filled
  intro nothing
  have vacant := (List.append_eq_nil_iff.mp nothing).1
  have positive := inhabited chunk List.mem_cons_self
  rw [Chunk.length, vacant] at positive
  exact absurd positive (Nat.lt_irrefl 0)

theorem ofChunks_nil (geometry : Geometry) : ofChunks geometry ([] : List α) = empty := by
  rw [ofChunks, leaves, groups_nil, List.map_nil, ofSiblings]

/-- The tree over chunks that fit in one leaf is that leaf. -/
theorem ofChunks_of_length_le (filled : more ≠ []) (fits : more.length ≤ geometry.branching) :
    ofChunks geometry more = makeLeaf geometry more := by
  rw [ofChunks, leaves, groups_of_length_le filled fits, List.map_singleton, ofSiblings]

/-- **Filling in parts.** Up to a leaf of chunks joined to a tree that is filled from the left makes
the tree filled from the left with all the chunks. -/
theorem append_ofChunks (inhabited : ∀ chunk ∈ chunks ++ more, 0 < Chunk.length chunk)
    (further : more ≠ []) (fits : more.length ≤ geometry.branching) :
    append geometry (ofChunks geometry chunks) (ofChunks geometry more) =
      ofChunks geometry (chunks ++ more) := by
  rw [List.forall_mem_append] at inhabited
  have rightFilled := not_isEmpty_ofChunks geometry further inhabited.2
  by_cases vacant : chunks = []
  · have leftEmpty : (empty : Tree α).isEmpty = true := rfl
    rw [append, if_neg rightFilled, vacant, ofChunks_nil, if_pos leftEmpty, List.nil_append]
  · have low : (makeLeaf geometry more).height ≤ (ofChunks geometry chunks).height := Nat.zero_le _
    rw [append_of_filled (not_isEmpty_ofChunks geometry vacant inhabited.1) rightFilled,
      ofChunks_of_length_le further fits, if_pos low]
    exact ofSiblings_extended_ofChunks vacant more

/-- A chunk that is pushed changes the right edge of a tree as a leaf of it does that is put after
the tree. -/
theorem pushed_eq_extended (chunk : α) {height : Nat} {tree : Tree α} (made : Made geometry tree)
    (uniform : Uniform geometry height tree) :
    tree.pushed geometry chunk = extended geometry (makeLeaf geometry [chunk]) tree := by
  induction tree generalizing height with
  | leaf measure chunks =>
      cases made
      obtain ⟨_, filled, fits⟩ := uniform.chunks
      change (makeLeaf geometry chunks).pushed geometry chunk = leaves geometry (chunks ++ [chunk])
      unfold makeLeaf pushed
      split
      · next room =>
          have whole : (chunks ++ [chunk]).length ≤ geometry.branching := by
            rw [List.length_append, List.length_singleton]
            exact room
          rw [leaves, groups_of_length_le (List.append_ne_nil_of_left_ne_nil filled _) whole,
            List.map_singleton]
      · next crowded =>
          have full : ∀ block ∈ [chunks], block.length = geometry.branching :=
            List.forall_mem_singleton.mpr (Nat.le_antisymm fits (Nat.le_of_not_lt crowded))
          have parts := groups_flatten_append geometry.branching_pos full [chunk]
          rw [List.flatten_singleton, groups_of_length_le (List.cons_ne_nil _ _)
            geometry.branching_pos] at parts
          rw [leaves, parts]
          rfl
  | node measure children ih =>
      have under := made.children
      have higher : measure.height ≠ (makeLeaf geometry [chunk]).height :=
        Nat.ne_of_gt made.height_pos
      obtain ⟨_, _, filled, _, below⟩ := uniform.children
      obtain nothing | ⟨front, last, rfl⟩ := eq_nil_or_exists_last children
      · exact absurd nothing filled
      · rw [pushed, extended, if_neg higher, pushedLast_concat, extendedLast_concat,
          ih last List.mem_concat_self (under last List.mem_concat_self)
            (below last List.mem_concat_self)]

/-- A chunk pushed onto the tree over chunks gives the tree over all of them. -/
theorem push_ofChunks (geometry : Geometry) (chunks : List α) (chunk : α) :
    (ofChunks geometry chunks).push geometry chunk = ofChunks geometry (chunks ++ [chunk]) := by
  by_cases vacant : chunks = []
  · have single : (empty : Tree α).pushed geometry chunk = [makeLeaf geometry [chunk]] :=
      if_pos geometry.branching_pos
    have fits : [chunk].length ≤ geometry.branching := geometry.branching_pos
    rw [vacant, ofChunks_nil, push, single, ofSiblings, List.nil_append,
      ofChunks_of_length_le (List.cons_ne_nil _ _) fits]
  · obtain ⟨height, top, _⟩ := exists_level_eq_singleton geometry vacant
    have uniform := uniform_level geometry chunks height
    rw [top, List.forall_mem_singleton] at uniform
    rw [push, pushed_eq_extended chunk (made_ofChunks geometry chunks) uniform]
    exact ofSiblings_extended_ofChunks vacant [chunk]

/-- **Pushing is filling in parts.** Chunks pushed one by one onto a tree that is filled from the
left make the tree filled from the left with all the chunks. -/
theorem pushAll_ofChunks (geometry : Geometry) (chunks more : List α) :
    (ofChunks geometry chunks).pushAll geometry more = ofChunks geometry (chunks ++ more) := by
  induction more generalizing chunks with
  | nil => exact congrArg (ofChunks geometry) (List.append_nil chunks).symm
  | cons chunk rest ih =>
      rw [pushAll, List.foldl_cons, ← pushAll, push_ofChunks, ih, List.append_assoc,
        List.singleton_append]

end Tree
end GraphemeRope
