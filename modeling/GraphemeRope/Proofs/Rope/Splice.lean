import GraphemeRope.Proofs.Rope.Align

/-! # The clusters after an edit

An aligned change leaves the clusters outside it as they are, and those of its content stand between
them. Every region case of every edit brings this about, although the content is segmented together
with what is left of the chunks around it: in a segmented row, a run of clusters is segmented as its
text is (`GraphemeRope.Edit.Effect.elements_eq`).
-/

namespace GraphemeRope
namespace Rope

variable [CharacterTable] {rope : Rope}

/-- The clusters before a position inside the window, and those from it on. -/
theorem take_elements_inWindow (measured : Measured rope) {position : Nat}
    (start : rope.windowStart ≤ position) (stop : position ≤ rope.windowStop) :
    rope.elements.take position =
      rope.left.elements ++ rope.window.clusters.take (position - rope.windowStart) := by
  rw [measured.windowStart_eq] at start ⊢
  rw [measured.windowStop_eq] at stop
  have spent : position - (rope.left.elements ++ rope.window.clusters).length = 0 := by
    rw [List.length_append]
    omega
  rw [elements, List.take_append, spent, List.take_zero, List.append_nil, List.take_append,
    List.take_of_length_le start]

/-- From a position in the window on, the rope is the rest of the window and the right tree. -/
theorem drop_elements_inWindow (measured : Measured rope) {position : Nat}
    (start : rope.windowStart ≤ position) (stop : position ≤ rope.windowStop) :
    rope.elements.drop position =
      rope.window.clusters.drop (position - rope.windowStart) ++ rope.right.elements := by
  rw [measured.windowStart_eq] at start ⊢
  rw [measured.windowStop_eq] at stop
  have spent : position - (rope.left.elements ++ rope.window.clusters).length = 0 := by
    rw [List.length_append]
    omega
  rw [elements, List.drop_append, spent, List.drop_zero, List.drop_append,
    List.drop_eq_nil_of_le start, List.nil_append]

/-- Up to a position behind the window, the rope is all in front of the right tree and some of
it. -/
theorem take_elements_afterWindow (measured : Measured rope) {position : Nat}
    (start : rope.windowStop ≤ position) :
    rope.elements.take position =
      rope.left.elements ++ rope.window.clusters ++
        rope.right.elements.take (position - rope.windowStop) := by
  rw [measured.windowStop_eq, ← List.length_append] at start ⊢
  rw [elements, List.take_append, List.take_of_length_le start]

/-- From a position behind the window on, the rope is the rest of the right tree. -/
theorem drop_elements_afterWindow (measured : Measured rope) {position : Nat}
    (start : rope.windowStop ≤ position) :
    rope.elements.drop position = rope.right.elements.drop (position - rope.windowStop) := by
  rw [measured.windowStop_eq, ← List.length_append] at start ⊢
  rw [elements, List.drop_append, List.drop_eq_nil_of_le start, List.nil_append]

/-- Up to a position in front of the window, the rope is some of the left tree. -/
theorem take_elements_beforeWindow (measured : Measured rope) {position : Nat}
    (stop : position ≤ rope.windowStart) :
    rope.elements.take position = rope.left.elements.take position := by
  rw [measured.windowStart_eq] at stop
  rw [elements, List.append_assoc, List.take_append_of_le_length stop]

/-- From a position in front of the window on, the rope is the rest of the left tree, the window and
the right tree. -/
theorem drop_elements_beforeWindow (measured : Measured rope) {position : Nat}
    (stop : position ≤ rope.windowStart) :
    rope.elements.drop position =
      rope.left.elements.drop position ++ (rope.window.clusters ++ rope.right.elements) := by
  rw [measured.windowStart_eq] at stop
  rw [elements, List.append_assoc, List.drop_append_of_le_length stop]

/-- Up to a position that is not behind the window, the rope is some of the left tree and of the
window. -/
theorem take_elements_to_window (measured : Measured rope) {position : Nat}
    (stop : position ≤ rope.windowStop) :
    rope.elements.take position =
      rope.left.elements.take (min position rope.windowStart) ++
        rope.window.clusters.take (position - rope.windowStart) := by
  rcases Nat.le_total position rope.windowStart with before | inside
  · rw [take_elements_beforeWindow measured before, Nat.min_eq_left before,
      Nat.sub_eq_zero_of_le before, List.take_zero, List.append_nil]
  · rw [take_elements_inWindow measured inside stop, Nat.min_eq_right inside,
      List.take_of_length_le (Nat.le_of_eq measured.windowStart_eq.symm)]

/-- From a position that is not in front of the window on, the rope is the rest of the window and of
the right tree. -/
theorem drop_elements_from_window (measured : Measured rope) {position : Nat}
    (start : rope.windowStart ≤ position) :
    rope.elements.drop position =
      rope.window.clusters.drop (position - rope.windowStart) ++
        rope.right.elements.drop (max position rope.windowStop - rope.windowStop) := by
  rcases Nat.le_total position rope.windowStop with inside | after
  · rw [drop_elements_inWindow measured start inside, Nat.max_eq_right inside, Nat.sub_self,
      List.drop_zero]
  · have nothing : rope.window.clusters.drop (position - rope.windowStart) = [] :=
      List.drop_eq_nil_of_le (Nat.le_sub_of_add_le' after)
    rw [drop_elements_afterWindow measured after, Nat.max_eq_left after, nothing, List.nil_append]

/-- Pieces that spill out of the window follow the left tree. -/
theorem elements_withWindow {geometry : Geometry} {left : Tree GraphemeChunk}
    (made : Tree.Made geometry left) (parts : List GraphemeChunk) (right : Tree GraphemeChunk) :
    (withWindow geometry left parts right).elements =
      left.elements ++ Cluster.segment (Chunk.elementsOf parts).flatten ++ right.elements := by
  have spill (spilled : List GraphemeChunk) :
      (if spilled.isEmpty then left
        else left.append geometry (Tree.ofChunks geometry spilled)).elements =
        left.elements ++ Chunk.elementsOf spilled := by
    split
    · next nothing => rw [List.isEmpty_iff.mp nothing, Chunk.elementsOf_nil, List.append_nil]
    · rw [Tree.elements_append made (Tree.made_ofChunks geometry spilled),
        Tree.elements_eq_elementsOf (Tree.ofChunks geometry spilled), Tree.chunks_ofChunks]
  have kept : (withWindow geometry left parts right).right = right := rfl
  rw [← GraphemeChunk.elementsOf_rechunk parts geometry.leafLength, elements, left_withWindow,
    window_withWindow, kept, spill]
  rcases eq_nil_or_exists_last (Chunk.rechunk parts geometry.leafLength) with
    nothing | ⟨spilled, last, cut⟩
  · rw [nothing]
    exact congrArg (· ++ right.elements) (List.append_nil _)
  · rw [cut, List.dropLast_concat, List.getLast?_concat, Option.getD_some, Chunk.elementsOf_append,
      Chunk.elementsOf_cons, Chunk.elementsOf_nil, List.append_nil, List.append_assoc]
    simp only [List.append_assoc]
    rfl

/-- A window that is made of the content and of clusters beside it has the clusters of an aligned
change. -/
theorem elements_withWindow_between {geometry : Geometry} {left : Tree GraphemeChunk}
    (made : Tree.Made geometry left) (before after : GraphemeChunk) (content : Text)
    (right : Tree GraphemeChunk)
    (segmented : Cluster.Segmented (left.elements ++ (before.clusters ++ Cluster.segment content ++
      after.clusters) ++ right.elements)) :
    (withWindow geometry left [before, GraphemeChunk.ofText content, after] right).elements =
      left.elements ++ (before.clusters ++ Cluster.segment content ++ after.clusters) ++
        right.elements := by
  rw [elements_withWindow made, GraphemeChunk.flatten_between, Cluster.segment_between segmented]

/-- The right tree with the window before it, unless the window is empty, has the clusters of
both. -/
theorem elements_windowBefore (measured : Measured rope) :
    Tree.Made rope.geometry
        (if Chunk.isEmpty rope.window then rope.right
          else (Tree.ofChunks rope.geometry [rope.window]).append rope.geometry rope.right) ∧
      (if Chunk.isEmpty rope.window then rope.right
        else (Tree.ofChunks rope.geometry [rope.window]).append rope.geometry
          rope.right).elements = rope.window.clusters ++ rope.right.elements := by
  have single := Tree.made_ofChunks rope.geometry [rope.window]
  split
  · next vacant =>
      have nothing : rope.window.clusters = [] :=
        Chunk.elements_eq_nil (Chunk.isEmpty_iff.mp vacant)
      rw [nothing, List.nil_append]
      exact ⟨measured.right, rfl⟩
  · refine ⟨Tree.made_append single measured.right, ?_⟩
    rw [Tree.elements_append single measured.right, Tree.elements_eq_elementsOf (Tree.ofChunks _ _),
      Tree.chunks_ofChunks, Chunk.elementsOf_cons, Chunk.elementsOf_nil, List.append_nil]
    rfl

/-- The clusters after a change inside the window, by regions. -/
theorem clusters_inWindow (measured : Measured rope) {change : Change}
    (ordered : change.start ≤ change.stop) (start : rope.windowStart ≤ change.start)
    (stop : change.stop ≤ rope.windowStop) :
    change.clusters rope.elements =
      rope.left.elements ++
        (rope.window.clusters.take (change.start - rope.windowStart) ++
          Cluster.segment change.content ++
            rope.window.clusters.drop (change.stop - rope.windowStart)) ++
        rope.right.elements := by
  rw [Change.clusters, take_elements_inWindow measured start (Nat.le_trans ordered stop),
    drop_elements_inWindow measured (Nat.le_trans start ordered) stop]
  simp only [List.append_assoc]

/-- The clusters after a change that meets the window, by regions. -/
theorem clusters_acrossWindow (measured : Measured rope) {change : Change}
    (start : change.start ≤ rope.windowStop) (stop : rope.windowStart ≤ change.stop) :
    change.clusters rope.elements =
      rope.left.elements.take (min change.start rope.windowStart) ++
        (rope.window.clusters.take (change.start - rope.windowStart) ++
          Cluster.segment change.content ++
            rope.window.clusters.drop (change.stop - rope.windowStart)) ++
        rope.right.elements.drop (max change.stop rope.windowStop - rope.windowStop) := by
  rw [Change.clusters, take_elements_to_window measured start,
    drop_elements_from_window measured stop]
  simp only [List.append_assoc]

/-- The part of the window after a position, none if that is past its end. -/
theorem clusters_windowTail (rope : Rope) (position : Nat) :
    (if position < rope.windowStop then Chunk.drop rope.window (position - rope.windowStart)
      else Chunk.empty).clusters = rope.window.clusters.drop (position - rope.windowStart) := by
  split
  · rfl
  · next past =>
      have covered : rope.window.clusters.length ≤ position - rope.windowStart :=
        Nat.le_sub_of_add_le' (Nat.le_of_not_lt past)
      exact (List.drop_eq_nil_of_le covered).symm

/-- **Splicing.** An aligned change has its clusters, whichever regions it touches. -/
theorem elements_splice (measured : Measured rope) {change : Change}
    (ordered : change.start ≤ change.stop)
    (segmented : Cluster.Segmented (change.clusters rope.elements)) :
    (rope.splice change).elements = change.clusters rope.elements := by
  have place := rope.placement_spec change.start change.stop
  unfold splice
  cases placed : rope.placement change.start change.stop with
  | inWindow =>
      rw [placed] at place
      rw [clusters_inWindow measured ordered place.1 place.2] at segmented ⊢
      exact elements_withWindow_between measured.left _ _ _ _ segmented
  | afterWindow =>
      rw [placed] at place
      have right : (rope.right.replace rope.geometry (change.start - rope.windowStop)
          (change.stop - rope.windowStop) (GraphemeChunk.ofText change.content)).elements =
          rope.right.elements.take (change.start - rope.windowStop) ++
            Cluster.segment change.content ++
              rope.right.elements.drop (change.stop - rope.windowStop) := by
        rw [Tree.elements_replace measured.right, GraphemeChunk.elementsOf_rechunk,
          GraphemeChunk.flatten_single]
      rw [Change.clusters, take_elements_afterWindow measured place,
        drop_elements_afterWindow measured (Nat.le_trans place ordered)]
      simp only [elements, right, List.append_assoc]
  | beforeWindow =>
      rw [placed] at place
      obtain ⟨made, joined⟩ := elements_windowBefore measured
      have behind := Tree.made_drop measured.left change.stop
      rw [Change.clusters, take_elements_beforeWindow measured (Nat.le_trans ordered place),
        drop_elements_beforeWindow measured place,
        elements_withWindow (Tree.made_take measured.left change.start),
        GraphemeChunk.flatten_single, Tree.elements_append behind made, joined,
        Tree.elements_take measured.left, Tree.elements_drop measured.left]
  | acrossWindow =>
      rw [placed] at place
      obtain ⟨start, stop, _⟩ := place
      have whole := clusters_acrossWindow measured (Nat.le_of_lt start) (Nat.le_of_lt stop)
      rw [← clusters_windowTail, ← Tree.elements_take measured.left,
        ← Tree.elements_drop measured.right] at whole
      rw [whole] at segmented ⊢
      exact elements_withWindow_between (Tree.made_take measured.left _) _ _ _ _ segmented

/-- Appended chunks have the clusters of the content. -/
theorem elementsOf_appendedChunks (rope : Rope) (content : Text) :
    Chunk.elementsOf (rope.appendedChunks content) = Cluster.segment content := by
  have pieces := GraphemeChunk.elementsOf_split content rope.geometry.leafLength
  unfold appendedChunks
  split
  · next nothing =>
      rw [nothing] at pieces
      exact pieces
  · exact pieces

/-- A change at the end puts the clusters of its content behind all others. -/
theorem clusters_atEnd (measured : Measured rope) {change : Change}
    (atEnd : change.start = rope.length ∧ change.stop = rope.length) :
    change.clusters rope.elements = rope.elements ++ Cluster.segment change.content := by
  rw [Change.clusters, atEnd.1, atEnd.2, measured.length_eq, List.take_length, List.drop_length,
    List.append_nil]

/-- A tree onto which appended chunks are pushed ends in the clusters of the content. -/
theorem elements_pushAll (rope : Rope) (tree : Tree GraphemeChunk) (content : Text) :
    (tree.pushAll rope.geometry (rope.appendedChunks content)).elements =
      tree.elements ++ Cluster.segment content := by
  rw [Tree.elements_eq_elementsOf, Tree.chunks_pushAll, Chunk.elementsOf_append,
    elementsOf_appendedChunks]
  rfl

/-- Content that is put into a row of chunks stands between the clusters before and after it,
although it is segmented together with the chunk that owns its position. -/
theorem elementsOf_placed {limit index : Nat} {row changed : List GraphemeChunk} {content : Text}
    (placed : Chunk.Placed limit (GraphemeChunk.ofText content) row index changed)
    {before after : List Grapheme}
    (segmented : Cluster.Segmented (before ++ ((Chunk.elementsOf row).take index ++
      Cluster.segment content ++ (Chunk.elementsOf row).drop index) ++ after)) :
    Chunk.elementsOf changed =
      (Chunk.elementsOf row).take index ++ Cluster.segment content ++
        (Chunk.elementsOf row).drop index := by
  cases placed with
  | between front rear row_eq index_eq changed_eq =>
      rw [row_eq, index_eq, changed_eq, Chunk.elementsOf_append, Chunk.elementsOf_append,
        Chunk.elementsOf_append, List.take_left, List.drop_left, GraphemeChunk.elementsOf_rechunk,
        GraphemeChunk.flatten_single]
  | within front rear owner offset row_eq index_eq inside changed_eq =>
      have front_eq : (Chunk.elementsOf row).take index =
          Chunk.elementsOf front ++ owner.clusters.take offset := by
        rw [row_eq, index_eq, Chunk.take_elementsOf_owner front rear inside]
        rfl
      have rear_eq : (Chunk.elementsOf row).drop index =
          owner.clusters.drop offset ++ Chunk.elementsOf rear := by
        rw [row_eq, index_eq, Chunk.drop_elementsOf_owner front rear inside]
        rfl
      have whole : before ++ ((Chunk.elementsOf row).take index ++ Cluster.segment content ++
          (Chunk.elementsOf row).drop index) ++ after =
            (before ++ Chunk.elementsOf front) ++ (owner.clusters.take offset ++
              Cluster.segment content ++ owner.clusters.drop offset) ++
                (Chunk.elementsOf rear ++ after) := by
        rw [front_eq, rear_eq]
        simp only [List.append_assoc]
      rw [whole] at segmented
      have middle : Cluster.segment ((Chunk.take owner offset).clusters.flatten ++ content ++
          (Chunk.drop owner offset).clusters.flatten) = owner.clusters.take offset ++
            Cluster.segment content ++ owner.clusters.drop offset :=
        Cluster.segment_between segmented
      rw [front_eq, rear_eq, changed_eq, Chunk.elementsOf_append, Chunk.elementsOf_append,
        GraphemeChunk.elementsOf_rechunk, GraphemeChunk.flatten_between, middle]
      simp only [List.append_assoc]

/-- A tree into which an aligned text is put has its clusters between those of the tree. -/
theorem elements_inserted {tree : Tree GraphemeChunk} (made : Tree.Made rope.geometry tree)
    {index : Nat} (inside : index ≤ tree.length) {content : Text} {before after : List Grapheme}
    (segmented : Cluster.Segmented (before ++ (tree.elements.take index ++
      Cluster.segment content ++ tree.elements.drop index) ++ after)) :
    (Tree.ofSiblings rope.geometry (tree.inserted rope.geometry (GraphemeChunk.ofText content)
      index)).elements =
        tree.elements.take index ++ Cluster.segment content ++ tree.elements.drop index := by
  rw [Tree.elements_eq_elementsOf, Tree.chunks_ofSiblings]
  exact elementsOf_placed (Tree.placed_inserted _ made.counted inside) segmented

/-- The clusters after an insertion before the window, by regions. -/
theorem clusters_beforeWindow (measured : Measured rope) {change : Change}
    (between : change.start = change.stop) (inside : change.start ≤ rope.windowStart) :
    change.clusters rope.elements =
      [] ++ (rope.left.elements.take change.start ++ Cluster.segment change.content ++
        rope.left.elements.drop change.start) ++ (rope.window.clusters ++ rope.right.elements) := by
  rw [Change.clusters, ← between, take_elements_beforeWindow measured inside,
    drop_elements_beforeWindow measured inside]
  simp only [List.append_assoc, List.nil_append]

/-- The clusters after an insertion behind the window, by regions. -/
theorem clusters_afterWindow (measured : Measured rope) {change : Change}
    (between : change.start = change.stop) (beyond : rope.windowStop ≤ change.start) :
    change.clusters rope.elements =
      rope.left.elements ++ rope.window.clusters ++
        (rope.right.elements.take (change.start - rope.windowStop) ++
          Cluster.segment change.content ++
            rope.right.elements.drop (change.start - rope.windowStop)) ++ [] := by
  rw [Change.clusters, ← between, take_elements_afterWindow measured beyond,
    drop_elements_afterWindow measured beyond]
  simp only [List.append_assoc, List.append_nil]

/-- The text of a rope is that of its clusters. -/
theorem text_eq_flatten (rope : Rope) : rope.text = rope.elements.flatten := by
  rw [text, Tree.text, Tree.text, GraphemeChunk.flatMap_text, GraphemeChunk.flatMap_text, elements,
    List.flatten_append, List.flatten_append]
  rfl

/-- The text of the clusters after a change is the outcome of the change. -/
theorem flatten_clusters (clusters : List Grapheme) (change : Change) :
    (change.clusters clusters).flatten = change.outcome clusters := by
  rw [Change.clusters, Change.outcome, List.flatten_append, List.flatten_append,
    Cluster.flatten_segment]

/-- **What every effect comes to.** After an effect the clusters are segmented, and their text is
the outcome of the change. -/
theorem segmented_of_effect (measured : Measured rope)
    (segmented : Cluster.Segmented rope.elements) {edit : Edit} {change : Change} {changed : Rope}
    (ordered : change.start ≤ change.stop) (inside : change.stop ≤ rope.elements.length)
    (effect : edit.Effect rope change changed) :
    Cluster.Segmented changed.elements ∧
      changed.elements.flatten = change.outcome rope.elements := by
  have aligned_case (clusters_eq : changed.elements = change.clusters rope.elements)
      (aligned : rope.isAligned change = true) : Cluster.Segmented changed.elements ∧
        changed.elements.flatten = change.outcome rope.elements := by
    rw [clusters_eq, flatten_clusters]
    exact ⟨segmented_clusters_of_isAligned measured segmented (Nat.le_trans ordered inside) aligned,
      rfl⟩
  cases effect with
  | unchanged nowhere vacant =>
      refine ⟨segmented, ?_⟩
      rw [Change.outcome, nowhere, vacant, List.append_nil, ← List.flatten_append,
        List.take_append_drop]
  | spliced =>
      obtain ⟨order, within, same, kept⟩ := align_spec measured segmented ordered inside
      rw [elements_splice measured order kept, flatten_clusters]
      exact ⟨kept, same⟩
  | pushedLeft _ aligned atEnd clear =>
      have window : rope.window.clusters = [] :=
        Chunk.elements_eq_nil (Chunk.isEmpty_iff.mp clear.1)
      have right : rope.right.elements = [] := measured.right.isEmpty_iff.mp clear.2
      refine aligned_case ?_ aligned
      rw [clusters_atEnd measured atEnd, elements, elements, elements_pushAll, window, right]
      simp only [List.append_nil]
  | pushedRight _ aligned atEnd =>
      refine aligned_case ?_ aligned
      rw [clusters_atEnd measured atEnd, elements, elements, elements_pushAll]
      simp only [List.append_assoc]
  | insertedLeft aligned filled between owned =>
      have kept := segmented_clusters_of_isAligned measured segmented
        (Nat.le_trans ordered inside) aligned
      refine aligned_case ?_ aligned
      rw [clusters_beforeWindow measured between owned] at kept ⊢
      rw [elements, elements_inserted measured.left owned kept]
      simp only [List.append_assoc, List.nil_append]
  | insertedRight aligned filled between beyond owned =>
      have kept := segmented_clusters_of_isAligned measured segmented
        (Nat.le_trans ordered inside) aligned
      refine aligned_case ?_ aligned
      rw [clusters_afterWindow measured between beyond] at kept ⊢
      rw [elements, elements_inserted measured.right owned kept, List.append_nil]

end Rope
end GraphemeRope
