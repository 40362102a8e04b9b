import GraphemeRope.Proofs.Rope.Coherence

/-! # What edits outside the window leave alone

An aligned insertion before or behind the window cuts one chunk of one tree anew, and an append that
joins nothing puts its chunks behind those of one tree. All other chunks stay as they are, however
the nodes above them are grouped anew (`GraphemeRope.Rope.layout_kept`).
-/

namespace GraphemeRope

namespace Tree

/-- An insertion into a tree of a rope that has an element cuts one of its chunks anew. -/
theorem Region.recut {α ε : Type} [Chunk α ε] {geometry : Geometry} {least index : Nat}
    {tree : Tree α} (region : Region geometry least tree) (filled : tree.length ≠ 0)
    (inside : index ≤ tree.length) (content : α) :
    Chunk.Recut geometry.leafLength content tree.chunks index
      (ofSiblings geometry (tree.inserted geometry content index)).chunks := by
  obtain ⟨_, uniform, _⟩ := region.wellFormed.exists_uniform filled
  rw [chunks_ofSiblings]
  exact recut_inserted content uniform inside

end Tree

namespace Rope

section Frame

variable [CharacterTable] {geometry : Geometry} {history : List Edit} {rope : Rope}
  {content : Text}

/-- Whether a tree is another one after content was put in at a position of it: one chunk was cut
anew, and if there is no content, nothing was done. -/
structure Inserted (geometry : Geometry) (content : Text) (index : Nat)
    (tree changed : Tree GraphemeChunk) : Prop where
  unchanged (vacant : content = []) : changed = tree
  recut (filled : content ≠ []) :
    Chunk.Recut geometry.leafLength (GraphemeChunk.ofText content) tree.chunks index changed.chunks

/-- An aligned insertion before the window makes the left tree longer by the clusters of its
content. -/
theorem length_insertedLeft (measured : Measured rope) (segmented : Cluster.Segmented rope.elements)
    {index : Nat} (before : index ≤ rope.windowStart)
    (aligned : rope.isAligned ⟨index, index, content⟩ = true) :
    (Tree.ofSiblings rope.geometry (rope.left.inserted rope.geometry
      (GraphemeChunk.ofText content) index)).length =
        rope.left.length + (Cluster.segment content).length := by
  have within : index ≤ rope.elements.length := by
    rw [← measured.length_eq]
    exact Nat.le_trans before (Nat.le_trans (Nat.le_add_right _ _) (Nat.le_add_right _ _))
  have kept := segmented_clusters_of_isAligned measured segmented within aligned
  rw [clusters_beforeWindow measured rfl before] at kept
  have elements : (Tree.ofSiblings rope.geometry (rope.left.inserted rope.geometry
      (GraphemeChunk.ofText content) index)).elements =
        rope.left.elements.take index ++ Cluster.segment content ++ rope.left.elements.drop index :=
    elements_inserted measured.left before kept
  have made := Tree.made_ofSiblings
    (Tree.made_inserted (GraphemeChunk.ofText content) measured.left index)
  have parts := congrArg List.length (List.take_append_drop index rope.left.elements)
  rw [List.length_append] at parts
  rw [made.length_eq, elements, measured.left.length_eq, List.length_append, List.length_append]
  omega

/-- Before the window an aligned insertion changes the left tree alone. -/
theorem exists_insert_beforeWindow (reached : Reachable geometry history rope) {index : Nat}
    (before : index < rope.windowStart)
    (aligned : rope.isAligned ⟨index, index, content⟩ = true) :
    ∃ left, rope.insert index content = .ok { rope with left } ∧
      left.length = rope.left.length + (Cluster.segment content).length ∧
      Inserted geometry content index rope.left left := by
  have inside : index < rope.left.length := before
  by_cases vacant : content = []
  · have within : ¬rope.length < index := by
      have whole : rope.length = rope.left.length + Chunk.length rope.window + rope.right.length :=
        rfl
      omega
    refine ⟨rope.left, ?_, ?_, fun _ => rfl, fun filled => absurd vacant filled⟩
    · rw [insert, if_neg within, if_pos (List.isEmpty_iff.mpr vacant)]
    · rw [vacant, Cluster.segment_nil, List.length_nil, Nat.add_zero]
  · have region := reached.shaped.left
    obtain rfl := reached.shaped.geometry_eq
    exact ⟨_, insert_of_lt_windowStart before vacant aligned,
      length_insertedLeft reached.measured reached.segmented (Nat.le_of_lt before) aligned,
      fun nothing => absurd nothing vacant,
      fun _ => region.recut (Nat.ne_zero_of_lt inside) (Nat.le_of_lt inside) _⟩

/-- Behind the window an aligned insertion changes the right tree alone. -/
theorem exists_insert_afterWindow (reached : Reachable geometry history rope) {index : Nat}
    (behind : rope.windowStop < index) (inside : index ≤ rope.length)
    (aligned : rope.isAligned ⟨index, index, content⟩ = true) :
    ∃ right, rope.insert index content = .ok { rope with right } ∧
      Inserted geometry content (index - rope.windowStop) rope.right right := by
  have whole : rope.length = rope.windowStop + rope.right.length := rfl
  by_cases vacant : content = []
  · refine ⟨rope.right, ?_, fun _ => rfl, fun filled => absurd vacant filled⟩
    rw [insert, if_neg (Nat.not_lt_of_le inside), if_pos (List.isEmpty_iff.mpr vacant)]
  · have region := reached.shaped.right
    obtain rfl := reached.shaped.geometry_eq
    exact ⟨_, insert_of_windowStop_lt behind inside vacant aligned,
      fun nothing => absurd nothing vacant, fun _ => region.recut (by omega) (by omega) _⟩

/-- Text with a boundary before it is not widened when it is appended. -/
theorem isAligned_atEnd (measured : Measured rope) (segmented : Cluster.Segmented rope.elements)
    (apart : Cluster.isBoundary rope.text content = true) :
    rope.isAligned ⟨rope.length, rope.length, content⟩ = true := by
  have inside : rope.length ≤ rope.elements.length := Nat.le_of_eq measured.length_eq
  rw [isAligned_iff measured segmented inside, measured.length_eq, List.take_length,
    List.drop_length, List.flatten_nil, List.append_nil, ← text_eq_flatten]
  exact ⟨apart, rfl⟩

/-- Appended text makes a chunk without clusters only if it is empty. -/
theorem appendedChunks_eq_ite (rope : Rope) (content : Text) :
    rope.appendedChunks content =
      if content = [] then [Chunk.empty]
      else GraphemeChunk.split content rope.geometry.leafLength := by
  unfold appendedChunks
  split
  · next nothing => rw [if_pos (GraphemeChunk.split_eq_nil_iff.mp nothing)]
  · next several => rw [if_neg fun vacant => several (GraphemeChunk.split_eq_nil_iff.mpr vacant)]

/-- What an append makes of a rope, if its text need not be widened. -/
theorem append_of_isAligned
    (aligned : rope.isAligned ⟨rope.length, rope.length, content⟩ = true) :
    rope.append content =
      if Chunk.length rope.window = 0 ∧ rope.right.length = 0 then
        { rope with left := rope.left.pushAll rope.geometry (rope.appendedChunks content) }
      else
        { rope with right := rope.right.pushAll rope.geometry (rope.appendedChunks content) } := by
  rw [append, rope.widened?_of_isAligned aligned]
  simp only [Chunk.isEmpty, Tree.isEmpty, Bool.and_eq_true, decide_eq_true_eq]

/-- **What edits outside the window leave alone.** An aligned insertion before the window moves the
window by its clusters and changes one chunk of the left tree, one behind the window changes one
chunk of the right tree: that chunk is cut anew, with the content between its parts. An append that
joins nothing puts the chunks of its text behind those of the left tree if there is nothing in the
window and in the right tree, and behind those of the right tree otherwise. -/
theorem layout_kept (reached : Reachable geometry history rope) :
    (∀ index content, index < rope.windowStart →
      rope.isAligned ⟨index, index, content⟩ = true →
      ∃ changed, rope.insert index content = .ok changed ∧
        changed.window = rope.window ∧ changed.right = rope.right ∧
        changed.windowStart = rope.windowStart + (Cluster.segment content).length ∧
        changed.windowStop = rope.windowStop + (Cluster.segment content).length ∧
        Inserted geometry content index rope.left changed.left) ∧
    (∀ index content, rope.windowStop < index → index ≤ rope.length →
      rope.isAligned ⟨index, index, content⟩ = true →
      ∃ changed, rope.insert index content = .ok changed ∧
        changed.left = rope.left ∧ changed.window = rope.window ∧
        changed.windowStart = rope.windowStart ∧ changed.windowStop = rope.windowStop ∧
        Inserted geometry content (index - rope.windowStop) rope.right changed.right) ∧
    ∀ content, Cluster.isBoundary rope.text content = true →
      let changed := rope.append content
      let added :=
        if content = [] then [Chunk.empty] else GraphemeChunk.split content geometry.leafLength
      changed.window = rope.window ∧
        if Chunk.length rope.window = 0 ∧ rope.right.length = 0 then
          changed.left.chunks = rope.left.chunks ++ added ∧ changed.right = rope.right
        else changed.left = rope.left ∧ changed.right.chunks = rope.right.chunks ++ added := by
  refine ⟨?_, ?_, ?_⟩
  · intro index content before aligned
    obtain ⟨left, put, longer, inserted⟩ := exists_insert_beforeWindow reached before aligned
    refine ⟨_, put, rfl, rfl, longer, ?_, inserted⟩
    simp only [windowStop, windowStart, longer]
    omega
  · intro index content behind inside aligned
    obtain ⟨right, put, inserted⟩ := exists_insert_afterWindow reached behind inside aligned
    exact ⟨_, put, rfl, rfl, rfl, rfl, inserted⟩
  · intro content apart changed added
    have chunks := appendedChunks_eq_ite rope content
    rw [reached.shaped.geometry_eq] at chunks
    have put : changed = _ :=
      append_of_isAligned (isAligned_atEnd reached.measured reached.segmented apart)
    by_cases clear : Chunk.length rope.window = 0 ∧ rope.right.length = 0
    · rw [if_pos clear] at put ⊢
      rw [put, Tree.chunks_pushAll, chunks]
      exact ⟨rfl, rfl, rfl⟩
    · rw [if_neg clear] at put ⊢
      rw [put, Tree.chunks_pushAll, chunks]
      exact ⟨rfl, rfl, rfl⟩

end Frame

/-- A rope with two letters in each tree and a letter with a mark in the window, in a small
geometry: letters put in on both sides of the window, and no text put at the end. -/
theorem layout_kept_of_two_trees :
    let small : Geometry := ⟨1, 1, by decide, by decide⟩
    let rope := ((ofText small ['a', 'b', 'c']).append ['\u0301']).append ['y', 'z']
    (∃ changed, rope.insert 1 ['p'] = .ok changed ∧ changed.window = rope.window ∧
      changed.windowStart = 3 ∧ changed.windowStop = 4 ∧
      Inserted small ['p'] 1 rope.left changed.left) ∧
    (∃ changed, rope.insert 4 ['q'] = .ok changed ∧ changed.left = rope.left ∧
      Inserted small ['q'] 1 rope.right changed.right) ∧
    (rope.append []).right.chunks = rope.right.chunks ++ [Chunk.empty] := by
  intro small rope
  have reached : Reachable small [.append ['y', 'z'], .append ['\u0301']] rope :=
    .edit (.edit (.ofText _ (by decide +kernel)) _ rfl (by decide +kernel)) _ rfl
      (by decide +kernel)
  have place : rope.windowStart = 2 ∧ rope.windowStop = 3 := by decide +kernel
  obtain ⟨before, behind, appended⟩ := layout_kept reached
  obtain ⟨first, put, window, _, start, stop, inserted⟩ :=
    before 1 ['p'] (by decide +kernel) (by decide +kernel)
  obtain ⟨second, also, left, _, _, _, right⟩ :=
    behind 4 ['q'] (by decide +kernel) (by decide +kernel) (by decide +kernel)
  have count : (Cluster.segment ['p']).length = 1 := by decide +kernel
  rw [place.1, count] at start
  rw [place.2, count] at stop
  rw [place.2] at right
  refine ⟨⟨first, put, window, start, stop, inserted⟩, ⟨second, also, left, right⟩, ?_⟩
  have chunks := (appended [] rfl).2
  rw [if_neg (by decide +kernel)] at chunks
  exact chunks.2

end Rope
end GraphemeRope
