import GraphemeRope.Proofs.Cluster.Count
import GraphemeRope.Proofs.Rope.TextEdit
import GraphemeRope.Proofs.Rope.Widening
import GraphemeRope.Proofs.Tree.Density

/-! # Typing

Text that is put in at the end of a rope, time after time, goes through the window, which spills its
full pieces into the left tree. The rope that this leads to is the one made by cutting the whole
text at once (`GraphemeRope.Rope.typed_eq_compact`). Nothing is left in it of where one text ended
and the next began, even if that was inside a cluster: the cluster is then in the window, and is
drawn into the change.
-/

namespace GraphemeRope
namespace Rope

section Typing

variable [CharacterTable]

/-- The rope after texts are put in one after another, each at the end. -/
def typed (geometry : Geometry) (texts : List Text) : Except RopeError Rope :=
  texts.foldlM (fun rope text => rope.insert rope.length text) (empty geometry)

/-- The rope of the pieces of a text, with the last of them in its window and the others in its left
tree. -/
def compact (geometry : Geometry) (text : Text) : Rope where
  geometry
  left := Tree.ofChunks geometry (GraphemeChunk.split text geometry.leafLength).dropLast
  window := (GraphemeChunk.split text geometry.leafLength).getLast?.getD Chunk.empty
  right := Tree.empty

variable {geometry : Geometry} {text content : Text} {rope : Rope}

/-- The compact rope of no text is the empty one. -/
theorem compact_nil (geometry : Geometry) : compact geometry [] = empty geometry := by
  rw [compact, GraphemeChunk.split_nil, List.dropLast_nil, Tree.ofChunks_nil, List.getLast?_nil]
  rfl

theorem holds_compact (geometry : Geometry) (text : Text) :
    Holds geometry text (compact geometry text) := by
  have pieces := GraphemeChunk.within_split (Nat.zero_le 1) geometry.leafLength_pos text
  have clusters := GraphemeChunk.elementsOf_split text geometry.leafLength
  refine ⟨⟨rfl, .ofChunks fun piece member => pieces piece (List.dropLast_subset _ member),
    .empty, ?_⟩, ?_⟩
  · unfold compact
    cases final : (GraphemeChunk.split text geometry.leafLength).getLast? with
    | none => exact Nat.zero_le _
    | some piece => exact (pieces piece (List.mem_of_getLast? final)).2
  · rw [elements, compact, Tree.elements_eq_elementsOf, Tree.chunks_ofChunks, ← clusters]
    rcases eq_nil_or_exists_last (GraphemeChunk.split text geometry.leafLength) with
      none | ⟨front, last, cut⟩
    · rw [none]
      rfl
    · rw [cut, List.dropLast_concat, List.getLast?_concat, Option.getD_some,
        Chunk.elementsOf_append, Chunk.elementsOf_cons, Chunk.elementsOf_nil, List.append_nil]
      exact List.append_nil _

/-- Unless there is no text, the window of a compact rope has clusters. -/
theorem windowStart_compact_lt (geometry : Geometry) (filled : text ≠ []) :
    (compact geometry text).windowStart < (compact geometry text).length := by
  have several : GraphemeChunk.split text geometry.leafLength ≠ [] := fun nothing =>
    filled (GraphemeChunk.split_eq_nil_iff.mp nothing)
  have size := GraphemeChunk.length_of_mem_split geometry.leafLength_pos (List.getLast_mem several)
  have window : (compact geometry text).window =
      (GraphemeChunk.split text geometry.leafLength).getLast several := by
    rw [compact, List.getLast?_eq_some_getLast several, Option.getD_some]
  have nothing : (compact geometry text).right.length = 0 := rfl
  rw [length, windowStop, window, nothing]
  omega

/-- The window of a compact rope holds its own text by its clusters. -/
theorem length_segment_window_compact (geometry : Geometry) (text : Text) :
    (Cluster.segment (compact geometry text).window.text).length ≤ geometry.leafLength := by
  have holds := holds_compact geometry text
  have segmented := holds.segmented
  rw [elements, Cluster.segmented_append_iff, Cluster.segmented_append_iff] at segmented
  rw [GraphemeChunk.text_eq, segmented.1.2.1]
  exact holds.shaped.window

/-- The pieces of the window and of up to a leaf of text after it are no more than fit into a leaf,
but for the last. -/
theorem length_split_window_compact (text : Text)
    (short : (Cluster.segment content).length ≤ geometry.branching * geometry.leafLength) :
    (GraphemeChunk.split ((compact geometry text).window.text ++ content)
      geometry.leafLength).length ≤ geometry.branching + 1 := by
  have window := length_segment_window_compact geometry text
  have both := Cluster.length_segment_append_le (compact geometry text).window.text content
  rw [GraphemeChunk.split, List.length_map]
  apply length_groups_le_of_le_mul
  rw [Nat.succ_mul]
  omega

/-- The pieces that spill out of the window of a compact rope fill its left tree further. -/
theorem withWindow_compact
    (short : (Cluster.segment content).length ≤ geometry.branching * geometry.leafLength)
    (filled : content ≠ []) {parts : List GraphemeChunk}
    (joined : parts.flatMap GraphemeChunk.text =
      (compact geometry text).window.text ++ content) :
    withWindow geometry (compact geometry text).left parts Tree.empty =
      compact geometry (text ++ content) := by
  -- The window is the last piece of the text, so cutting it again with the content after it gives
  -- what cutting the whole text gives after the pieces in the left tree.
  have whole := GraphemeChunk.split_append geometry.leafLength_pos text content
  have fits := length_split_window_compact text short
  have front := GraphemeChunk.within_split (Nat.le_refl 1) geometry.leafLength_pos text
  have rear := GraphemeChunk.within_split (Nat.le_refl 1) geometry.leafLength_pos
    ((compact geometry text).window.text ++ content)
  have cut : Chunk.rechunk parts geometry.leafLength =
      GraphemeChunk.split ((compact geometry text).window.text ++ content) geometry.leafLength :=
    congrArg (GraphemeChunk.split · geometry.leafLength) joined
  rcases eq_nil_or_exists_last (GraphemeChunk.split ((compact geometry text).window.text ++ content)
    geometry.leafLength) with nothing | ⟨spilled, last, pieces⟩
  · exact absurd (List.append_eq_nil_iff.mp (GraphemeChunk.split_eq_nil_iff.mp nothing)).2 filled
  rw [pieces] at cut fits rear
  rw [List.length_append, List.length_singleton] at fits
  have left : (if spilled.isEmpty then (compact geometry text).left
      else (compact geometry text).left.append geometry (Tree.ofChunks geometry spilled)) =
        Tree.ofChunks geometry
          ((GraphemeChunk.split text geometry.leafLength).dropLast ++ spilled) := by
    split
    · next nothing => rw [List.isEmpty_iff.mp nothing, List.append_nil, compact]
    · next present =>
        refine Tree.append_ofChunks (List.forall_mem_append.mpr ⟨?_, ?_⟩)
          (fun empty => present (List.isEmpty_iff.mpr empty)) (Nat.le_of_succ_le_succ fits)
        · exact fun piece member => (front piece (List.dropLast_subset _ member)).1
        · exact fun piece member => (rear piece (List.mem_append_left _ member)).1
  have window : (compact geometry text).window =
      (GraphemeChunk.split text geometry.leafLength).getLast?.getD Chunk.empty := rfl
  rw [← window, pieces, ← List.append_assoc] at whole
  rw [withWindow, cut, List.dropLast_concat, left, List.getLast?_concat, compact, whole,
    List.dropLast_concat, List.getLast?_concat]

/-- A change in the window leaves both trees as they are, but for what spills. -/
theorem splice_of_inWindow {change : Change} (start : rope.windowStart ≤ change.start)
    (stop : change.stop ≤ rope.windowStop) :
    rope.splice change = withWindow rope.geometry rope.left
      [Chunk.take rope.window (change.start - rope.windowStart),
        GraphemeChunk.ofText change.content,
        Chunk.drop rope.window (change.stop - rope.windowStart)] rope.right := by
  rw [splice, rope.placement_eq_inWindow_iff.mpr ⟨start, stop⟩]

/-- A text put in inside the window is spliced as it is aligned. -/
theorem insert_of_inWindow {index : Nat} (start : rope.windowStart ≤ index)
    (stop : index ≤ rope.windowStop) (filled : content ≠ []) :
    rope.insert index content = .ok (rope.splice (rope.align ⟨index, index, content⟩)) := by
  have inside : index ≤ rope.length := Nat.le_trans stop (Nat.le_add_right _ _)
  by_cases aligned : rope.isAligned ⟨index, index, content⟩ = true
  · have placed := rope.placement_eq_inWindow_iff.mpr ⟨start, stop⟩
    rw [insert_of_isAligned inside filled aligned, rope.align_of_isAligned aligned]
    simp only [spliceInsertion, placed]
  · exact insert_of_not_isAligned inside filled aligned

/-- An aligned text put in inside the window is spliced as it is. -/
theorem insert_of_inWindow_of_isAligned {index : Nat} (start : rope.windowStart ≤ index)
    (stop : index ≤ rope.windowStop) (filled : content ≠ [])
    (aligned : rope.isAligned ⟨index, index, content⟩ = true) :
    rope.insert index content = .ok (rope.splice ⟨index, index, content⟩) := by
  rw [insert_of_inWindow start stop filled, rope.align_of_isAligned aligned]

/-- The first text of a rope is put into its window. -/
theorem reachable_splice_empty (filled : content ≠ [])
    (representable :
      ((empty geometry).splice ⟨0, 0, content⟩).length < 2 ^ Geometry.indexBits) :
    Reachable geometry [.insert 0 content] ((empty geometry).splice ⟨0, 0, content⟩) := by
  have aligned : (empty geometry).isAligned ⟨0, 0, content⟩ = true := rfl
  exact .edit .empty _ (insert_of_inWindow_of_isAligned (Nat.le_refl 0) (Nat.le_refl 0) filled
    aligned) representable

/-- A change at the end of a rope is widened by no more than the last cluster. -/
theorem align_atEnd (measured : Measured rope) (segmented : Cluster.Segmented rope.elements)
    {wider : Change} (aligned : rope.align ⟨rope.length, rope.length, content⟩ = wider) :
    rope.length ≤ wider.start + 1 ∧ wider.start ≤ wider.stop ∧ wider.stop = rope.length ∧
      (rope.elements.take wider.start).flatten ++ wider.content = rope.text ++ content := by
  have inside : rope.length ≤ rope.elements.length := Nat.le_of_eq measured.length_eq
  generalize typing : (⟨rope.length, rope.length, content⟩ : Change) = change at aligned
  have start : change.start = rope.length := typing ▸ rfl
  have stop : change.stop = rope.length := typing ▸ rfl
  have kept : change.content = content := typing ▸ rfl
  have ordered : change.start ≤ change.stop := Nat.le_of_eq (start.trans stop.symm)
  rw [← stop] at inside
  have within := Nat.le_trans ordered inside
  obtain ⟨greatest, least⟩ := extremes_align measured segmented ordered inside
  obtain ⟨inOrder, _, outcome, _⟩ := align_spec measured segmented ordered inside
  have near := start_le_of_isGreatest segmented within greatest
  rw [aligned] at least inOrder outcome near
  have last : wider.stop = rope.length := Nat.le_antisymm least.1.2.1 (stop ▸ least.1.1)
  rw [Change.outcome, Change.outcome, last, start, stop, kept, measured.length_eq, List.take_length,
    List.drop_length, List.flatten_nil, List.append_nil, List.append_nil,
    ← text_eq_flatten] at outcome
  exact ⟨start ▸ near, inOrder, last, outcome⟩

/-- At the end of a rope without a right tree, text is put into the window, if there is a cluster in
it to be drawn into the change. -/
theorem insert_atEnd (measured : Measured rope) (segmented : Cluster.Segmented rope.elements)
    (clear : rope.right = Tree.empty) (windowed : rope.length ≠ 0 → rope.windowStart < rope.length)
    (filled : content ≠ []) :
    ∃ parts, rope.insert rope.length content =
        .ok (withWindow rope.geometry rope.left parts rope.right) ∧
      parts.flatMap GraphemeChunk.text = rope.window.text ++ content := by
  have stop : rope.length = rope.windowStop := by
    rw [length, clear]
    rfl
  have start : rope.windowStart ≤ rope.length := stop ▸ Nat.le_add_right _ _
  obtain ⟨wider, aligned⟩ : ∃ wider, rope.align ⟨rope.length, rope.length, content⟩ = wider :=
    ⟨_, rfl⟩
  obtain ⟨near, ordered, last, joined⟩ := align_atEnd measured segmented aligned
  rw [stop] at last near
  -- Only the last cluster can be drawn in, and it is in the window.
  have first : rope.windowStart ≤ wider.start := by omega
  have put := insert_of_inWindow start (Nat.le_of_eq stop) filled
  rw [aligned, splice_of_inWindow first (Nat.le_of_eq last)] at put
  refine ⟨_, put, ?_⟩
  have behind : (Chunk.drop rope.window (wider.stop - rope.windowStart)).clusters = [] := by
    refine List.drop_eq_nil_of_le ?_
    rw [last, windowStop, Nat.add_sub_cancel_left]
    exact Nat.le_refl _
  rw [take_elements_inWindow measured first (last ▸ ordered), text_eq_flatten, elements, clear,
    Tree.elements_empty, List.append_nil, List.flatten_append, List.flatten_append,
    List.append_assoc, List.append_assoc, List.append_cancel_left_eq] at joined
  rw [GraphemeChunk.flatMap_text, GraphemeChunk.flatten_between, behind, List.flatten_nil,
    List.append_nil]
  exact joined

/-- **Typing keeps a rope compact.** -/
theorem insert_compact
    (short : (Cluster.segment content).length ≤ geometry.branching * geometry.leafLength)
    (representable : (Cluster.segment text).length < 2 ^ Geometry.indexBits) :
    (compact geometry text).insert (compact geometry text).length content =
      .ok (compact geometry (text ++ content)) := by
  by_cases vacant : content = []
  · have inside : ¬(compact geometry text).length < (compact geometry text).length :=
      Nat.lt_irrefl _
    rw [vacant, List.append_nil, insert, if_neg inside]
    rfl
  have holds := holds_compact geometry text
  have windowed (positive : (compact geometry text).length ≠ 0) :
      (compact geometry text).windowStart < (compact geometry text).length := by
    refine windowStart_compact_lt geometry fun blank => positive ?_
    rw [holds.length_eq, blank]
    rfl
  obtain ⟨parts, put, joined⟩ := insert_atEnd
    (holds.shaped.measured (holds.length_eq ▸ representable)) holds.segmented rfl windowed vacant
  rw [put]
  exact congrArg Except.ok (withWindow_compact short vacant joined)

/-- Typing more and more keeps a rope compact. -/
theorem foldlM_insert_compact {texts : List Text}
    (short : ∀ text ∈ texts,
      (Cluster.segment text).length ≤ geometry.branching * geometry.leafLength)
    (representable : (Cluster.segment (text ++ texts.flatten)).length < 2 ^ Geometry.indexBits) :
    texts.foldlM (fun rope text => rope.insert rope.length text) (compact geometry text) =
      .ok (compact geometry (text ++ texts.flatten)) := by
  induction texts generalizing text with
  | nil =>
      rw [List.flatten_nil, List.append_nil]
      rfl
  | cons next texts ih =>
      rw [List.forall_mem_cons] at short
      rw [List.flatten_cons, ← List.append_assoc] at representable ⊢
      have before := Nat.lt_of_le_of_lt (Cluster.length_segment_le_append text _)
        (List.append_assoc _ _ _ ▸ representable)
      rw [List.foldlM_cons, insert_compact short.1 before]
      exact ih short.2 representable

/-- **Typing is cutting at once.** Texts of no more clusters than a full leaf has, put in one after
another at the end of a rope that was empty, lead to the rope of the pieces of the whole text. -/
theorem typed_eq_compact {texts : List Text}
    (short : ∀ text ∈ texts,
      (Cluster.segment text).length ≤ geometry.branching * geometry.leafLength)
    (representable : (Cluster.segment texts.flatten).length < 2 ^ Geometry.indexBits) :
    typed geometry texts = .ok (compact geometry texts.flatten) ∧
      (compact geometry texts.flatten).left.isDense = true := by
  refine ⟨?_, Tree.isDense_ofChunks
    (GraphemeChunk.length_of_mem_dropLast_split geometry.leafLength_pos) ?_⟩
  · rw [typed, ← compact_nil]
    exact foldlM_insert_compact short representable
  · refine Nat.lt_of_le_of_lt ?_ representable
    rw [← (holds_compact geometry texts.flatten).elements_eq, elements, compact,
      Tree.elements_eq_elementsOf, Tree.chunks_ofChunks, List.append_assoc, List.length_append]
    exact Nat.le_add_right _ _

end Typing

/-- Texts that are cut within a flag, before a mark and within a run of letters, put in one after
another in a small geometry. The left tree has two levels in the end. -/
theorem typed_eq_compact_of_cuts :
    let small : Geometry := ⟨1, 1, by decide, by decide⟩
    let texts : List Text := [['a', '🇩'], ['🇪', '🇫', 'b'], [], ['\u0301', 'c', 'd', 'e'],
      ['f', 'g', 'h', 'i'], ['j']]
    typed small texts = .ok (compact small texts.flatten) ∧
      ((compact small texts.flatten).left.isDense = true ∧
        (compact small texts.flatten).left.height = 2) := by
  intro small texts
  obtain ⟨same, dense⟩ := typed_eq_compact (show ∀ text ∈ texts,
    (Cluster.segment text).length ≤ small.branching * small.leafLength by decide +kernel)
    (by decide +kernel)
  exact ⟨same, dense, by decide +kernel⟩

end Rope
end GraphemeRope
