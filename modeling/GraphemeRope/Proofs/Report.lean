import GraphemeRope.Proofs.Guarded.Chunk
import GraphemeRope.Proofs.Rope.TextEdit
import GraphemeRope.Proofs.Tree.Density
import GraphemeRope.Proofs.UnitView
import GraphemeRope.Report

/-! # Reports of new ropes

A text is cut into as few chunks as can hold its clusters, and these are stacked to a tree. What is
reported of a rope that was made of a text can therefore be said of the text alone
(`GraphemeRope.Report.ofRope_ofText`), but for the height of its tree, which is the least that the
number of clusters allows (`GraphemeRope.Rope.dense_lowest_ofText`).
-/

namespace GraphemeRope
namespace GraphemeChunk

/-- The bytes of a row of chunks are those of its text. -/
theorem total_byteLength (row : List GraphemeChunk) :
    total (row.map byteLength) = (String.ofList (row.flatMap text)).utf8ByteSize := by
  rw [← Guarded.byteCount_eq_utf8ByteSize]
  induction row with
  | nil => rfl
  | cons chunk row ih =>
      rw [List.map_cons, total, ih, List.flatMap_cons, Guarded.byteCount_append]
      rfl

variable [CharacterTable]

/-- All pieces of a text but the last are full. -/
theorem packed_split (geometry : Geometry) (text : Text) :
    Chunk.Packed geometry (split text geometry.leafLength) where
  full := length_of_mem_dropLast_split geometry.leafLength_pos
  short _ member := (length_of_mem_split geometry.leafLength_pos member).2

end GraphemeChunk

section Reports

variable [CharacterTable]

namespace Rope

/-- The left tree of a new rope holds the pieces of its text. -/
theorem chunks_left_ofText (geometry : Geometry) (text : Text) :
    (ofText geometry text).left.chunks = GraphemeChunk.split text geometry.leafLength :=
  Tree.chunks_ofChunks geometry _

/-- All clusters of a new rope are before its window. -/
theorem windowStart_ofText (geometry : Geometry) (text : Text) :
    (ofText geometry text).windowStart = (Cluster.segment text).length := by
  have length_eq := (Tree.made_ofChunks geometry
    (GraphemeChunk.split text geometry.leafLength)).length_eq
  rw [Tree.elements_eq_elementsOf, Tree.chunks_ofChunks,
    GraphemeChunk.elementsOf_split] at length_eq
  exact length_eq

end Rope

/-- What is reported of a rope that was made of a text. -/
theorem Report.ofRope_ofText (geometry : Geometry) (text : Text) :
    Report.ofRope (Rope.ofText geometry text) =
      { graphemes := (Cluster.segment text).length
        units := (Units.encode text).length
        bytes := (String.ofList text).utf8ByteSize
        chunks := ((Cluster.segment text).length + geometry.leafLength - 1) / geometry.leafLength
        depth := (Rope.ofText geometry text).left.height
        windowStart := (Cluster.segment text).length
        windowStop := (Cluster.segment text).length } := by
  have holds := Rope.holds_ofText geometry text
  have sound := Rope.sound_unitView (Rope.ofText geometry text)
  have units := sound.length_eq
  rw [Rope.shown_unitView, holds.text_eq] at units
  have start := Rope.windowStart_ofText geometry text
  have stop : (Rope.ofText geometry text).windowStop = (Cluster.segment text).length := start
  have depth : (Rope.ofText geometry text).depth = (Rope.ofText geometry text).left.height :=
    Nat.max_eq_left (Nat.zero_le _)
  -- Neither the window nor the right tree has a chunk that counts.
  have chunks : (Rope.ofText geometry text).left.chunks ++
      (if Chunk.isEmpty (Rope.ofText geometry text).window then []
        else [(Rope.ofText geometry text).window]) ++ (Rope.ofText geometry text).right.chunks =
      GraphemeChunk.split text geometry.leafLength := by
    rw [← Rope.chunks_left_ofText]
    exact (List.append_nil _).trans (List.append_nil _)
  rw [Report.ofRope]
  simp only [chunks, units, start, stop, depth, holds.length_eq, GraphemeChunk.total_byteLength,
    GraphemeChunk.flatMap_text_split, GraphemeChunk.length_split geometry.leafLength_pos]

namespace Rope

/-- **New ropes are dense and as low as can be.** The tree of a rope that was made of a text holds
the clusters of the text in as few chunks as they fit into, and all but the last of these are full.
If the clusters can be counted by an index, the tree is dense, and no lower one has room for them.
So all that is reported of the rope follows from the text and the geometry. -/
theorem dense_lowest_ofText (geometry : Geometry) {text : Text}
    (representable : (Cluster.segment text).length < 2 ^ Geometry.indexBits) :
    let tree := (ofText geometry text).left
    let count := (Cluster.segment text).length
    let fewest := (count + geometry.leafLength - 1) / geometry.leafLength
    tree.isDense = true ∧
    (tree.chunks.length = fewest ∧
      ∀ chunk ∈ tree.chunks.dropLast, Chunk.length chunk = geometry.leafLength) ∧
    IsLeast {height | count ≤ geometry.capacity height} tree.height ∧
    Report.ofRope (ofText geometry text) =
      { graphemes := count
        units := (Units.encode text).length
        bytes := (String.ofList text).utf8ByteSize
        chunks := fewest
        depth := tree.height
        windowStart := count
        windowStop := count } := by
  intro tree count fewest
  have packed := GraphemeChunk.packed_split geometry text
  have clusters := GraphemeChunk.elementsOf_split text geometry.leafLength
  have filled : ∀ piece ∈ GraphemeChunk.split text geometry.leafLength, 0 < Chunk.length piece :=
    fun piece member => (GraphemeChunk.length_of_mem_split geometry.leafLength_pos member).1
  have least := packed.isLeast_height_ofChunks (clusters ▸ representable) filled
  rw [clusters] at least
  have chunks : tree.chunks = GraphemeChunk.split text geometry.leafLength :=
    chunks_left_ofText geometry text
  refine ⟨packed.isDense_ofChunks (clusters ▸ representable), ⟨?_, ?_⟩, least,
    Report.ofRope_ofText geometry text⟩
  · rw [chunks, GraphemeChunk.length_split geometry.leafLength_pos]
  · rw [chunks]
    exact packed.full

end Rope

end Reports

/-- Nine clusters in chunks of two and nodes of two, one more than a tree of two levels holds. -/
theorem Rope.dense_lowest_of_nine :
    let small : Geometry := ⟨1, 1, by decide, by decide⟩
    let text : Text := ['a', '🇩', '🇪', 'e', '\u0301', 'b', 'c', 'd', 'f', 'g', '😍']
    let tree := (ofText small text).left
    (tree.isDense = true ∧ tree.chunks.length = 5) ∧
      (small.capacity 1 = 8 ∧ IsLeast {height | 9 ≤ small.capacity height} 2) ∧
      Report.ofRope (ofText small text) = ⟨9, 14, 21, 5, 2, 9, 9⟩ := by
  intro small text tree
  have count : (Cluster.segment text).length = 9 := by decide +kernel
  have height : tree.height = 2 := by decide +kernel
  obtain ⟨dense, ⟨chunks, _⟩, least, report⟩ := dense_lowest_ofText small
    (show (Cluster.segment text).length < 2 ^ Geometry.indexBits by rw [count]; decide)
  simp only [count] at chunks least report
  rw [height] at least
  refine ⟨⟨dense, chunks.trans (by decide)⟩, ⟨by decide, least⟩, ?_⟩
  rw [report, height]
  decide +kernel

end GraphemeRope
