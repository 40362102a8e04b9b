import GraphemeRope.Proofs.Rope.Splice

/-! # Reachable ropes and their texts

The clusters of a reachable rope are those of its text, so that every place where two of its chunks
meet is a boundary (`GraphemeRope.Rope.coherent_of_reachable`). An edit of it does to the text what
its change does to the clusters, and is refused for its positions alone
(`GraphemeRope.Rope.text_of_apply`).
-/

namespace GraphemeRope
namespace Rope

section Coherence

variable [CharacterTable] {geometry : Geometry} {history : List Edit} {rope : Rope}

/-- A new rope has the clusters of its text. -/
theorem elements_ofText (geometry : Geometry) (text : Text) :
    (ofText geometry text).elements = Cluster.segment text := by
  have left : (ofText geometry text).left.elements = Cluster.segment text := by
    rw [ofText, Tree.elements_eq_elementsOf, Tree.chunks_ofChunks, GraphemeChunk.elementsOf_split]
  rw [elements, left]
  exact (List.append_nil _).trans (List.append_nil _)

/-- Read one by one, a rope shows all its clusters in order. -/
theorem Measured.map_element (measured : Measured rope) :
    (List.range rope.length).map rope.element = rope.elements.map .ok := by
  rw [measured.length_eq]
  apply List.ext_getElem
  · simp only [List.length_map, List.length_range]
  · intro index _ inside
    rw [List.length_map] at inside
    rw [List.getElem_map, List.getElem_map, List.getElem_range, measured.element_eq,
      dif_pos inside]

namespace Reachable

/-- Every position of a reachable rope is an index. -/
theorem representable (reached : Reachable geometry history rope) :
    rope.length < 2 ^ Geometry.indexBits := by
  cases reached with
  | empty => exact Nat.two_pow_pos _
  | ofText _ representable => exact representable
  | edit _ _ _ representable => exact representable

theorem measured (reached : Reachable geometry history rope) : Measured rope :=
  reached.shaped.measured reached.representable

/-- The clusters of a reachable rope are what its text is cut into. -/
theorem segmented (reached : Reachable geometry history rope) :
    Cluster.Segmented rope.elements := by
  induction reached with
  | empty => exact Cluster.segment_nil
  | ofText text _ =>
      rw [elements_ofText]
      exact Cluster.segmented_segment text
  | edit reached edit applied _ ih =>
      obtain ⟨change, granted, effect⟩ := Edit.effect_of_apply applied
      rw [reached.measured.length_eq] at granted
      obtain ⟨ordered, inside⟩ := Edit.bounds_of_change granted
      exact (segmented_of_effect reached.measured ih ordered inside effect).1

end Reachable

/-- The clusters of a reachable rope are those of its text. -/
theorem segment_text (reached : Reachable geometry history rope) :
    Cluster.segment rope.text = rope.elements := by
  rw [text_eq_flatten, reached.segmented]

/-- **Coherence.** The clusters of a reachable rope are the clusters of its text, and it shows them
one by one. Wherever its row of chunks is cut in two, there is a boundary of the text. -/
theorem coherent_of_reachable (reached : Reachable geometry history rope) :
    rope.elements = Cluster.segment rope.text ∧
    rope.length = (Cluster.segment rope.text).length ∧
    (∀ index, rope.element index =
      if inside : index < (Cluster.segment rope.text).length then
        .ok (Cluster.segment rope.text)[index]
      else .error (.indexOutOfRange index rope.length)) ∧
    ∀ front rear, rope.left.chunks ++ [rope.window] ++ rope.right.chunks = front ++ rear →
      front.flatMap GraphemeChunk.text ++ rear.flatMap GraphemeChunk.text = rope.text ∧
      Cluster.isBoundary (front.flatMap GraphemeChunk.text)
        (rear.flatMap GraphemeChunk.text) = true := by
  have same := segment_text reached
  rw [same]
  refine ⟨rfl, reached.measured.length_eq, reached.measured.element_eq, ?_⟩
  intro front rear cut
  have clusters : rope.elements = Chunk.elementsOf front ++ Chunk.elementsOf rear := by
    rw [← Chunk.elementsOf_append, ← cut, Chunk.elementsOf_append, Chunk.elementsOf_append,
      Chunk.elementsOf_cons, Chunk.elementsOf_nil, List.append_nil]
    rfl
  have segmented := reached.segmented
  rw [clusters, Cluster.segmented_append_iff] at segmented
  rw [GraphemeChunk.flatMap_text, GraphemeChunk.flatMap_text, text_eq_flatten, clusters,
    List.flatten_append]
  exact ⟨rfl, segmented.2.2⟩

end Coherence

/-- Appended regional indicators, the first of which joins the one at the end of the rope. -/
theorem coherent_after_append :
    let rope := (Rope.ofText .standard ['a', '🇩']).append ['🇪', '🇫']
    rope.elements = [['a'], ['🇩', '🇪'], ['🇫']] ∧ rope.elements = Cluster.segment rope.text := by
  intro rope
  have reached : Reachable .standard [.append ['🇪', '🇫']] rope :=
    .edit (.ofText _ (by decide +kernel)) _ rfl (by decide +kernel)
  exact ⟨by decide +kernel, (coherent_of_reachable reached).1⟩

section Outcome

variable [CharacterTable] {geometry : Geometry} {history : List Edit} {rope : Rope}

/-- **Edits agree with the text.** A reachable rope shows its clusters one by one. An edit of it is
refused exactly if its positions are, with the error that names them, and otherwise replaces the
text of the clusters between them by its content. -/
theorem text_of_apply (reached : Reachable geometry history rope) (edit : Edit) :
    (List.range rope.length).map rope.element = rope.elements.map .ok ∧
    (edit.apply rope).map Rope.text =
      (edit.change rope.elements.length).map (Change.outcome rope.elements) := by
  have measured := reached.measured
  refine ⟨measured.map_element, ?_⟩
  have spec := Edit.apply_spec rope edit
  rw [measured.length_eq] at spec
  cases granted : edit.change rope.elements.length with
  | error error =>
      rw [granted] at spec
      rw [spec]
      rfl
  | ok change =>
      rw [granted] at spec
      obtain ⟨changed, applied, effect⟩ := spec
      obtain ⟨ordered, inside⟩ := Edit.bounds_of_change granted
      have outcome := (segmented_of_effect measured reached.segmented ordered inside effect).2
      rw [applied, Except.map, Except.map, text_eq_flatten, outcome]

end Outcome

/-- A regional indicator put in before a flag pairs up with the first letter of it. -/
theorem text_of_insert :
    let rope := (Rope.ofText .standard ['a', '🇩']).append ['🇪', '🇫']
    ((Edit.insert 1 ['🇫']).apply rope).map Rope.text = .ok ['a', '🇫', '🇩', '🇪', '🇫'] := by
  intro rope
  have clusters : rope.elements = [['a'], ['🇩', '🇪'], ['🇫']] := by decide +kernel
  have reached : Reachable .standard [.append ['🇪', '🇫']] rope :=
    .edit (.ofText _ (by decide +kernel)) _ rfl (by decide +kernel)
  rw [(text_of_apply reached (.insert 1 ['🇫'])).2, clusters]
  rfl

end Rope
end GraphemeRope
