import GraphemeRope.Proofs.Guarded.Chunk
import GraphemeRope.Unicode.Table

/-! # Chunks cut without and with segmenting anew

A slice of a chunk keeps the bounds of the clusters in it, which were found with all of the chunk in
front of them. When a text is split, each piece is segmented again with nothing in front of it.
Where a cluster starts, what comes before it does not matter, so a slice is the chunk of its own
text (`GraphemeRope.GraphemeChunk.slice_anew`), and the pieces of a text have its clusters
(`GraphemeRope.GraphemeChunk.cutsInto_iff`).
-/

namespace GraphemeRope
namespace GraphemeChunk

section Slices

variable [CharacterTable]

/-- A slice of a slice is a slice. -/
theorem slice_slice (chunk : GraphemeChunk) (start : Nat) {stop last : Nat}
    (inside : start + last ≤ stop) (first : Nat) :
    Chunk.slice (Chunk.slice chunk start stop) first last =
      Chunk.slice chunk (start + first) (start + last) := by
  apply congrArg mk
  change (((chunk.clusters.take stop).drop start).take last).drop first =
    (chunk.clusters.take (start + last)).drop (start + first)
  rw [List.take_drop, List.take_take, Nat.min_eq_left inside, List.drop_drop]

/-- A segmented row of clusters is the chunk of its text. -/
theorem ofText_flatten {clusters : List Grapheme} (segmented : Cluster.Segmented clusters) :
    ofText clusters.flatten = ⟨clusters⟩ :=
  congrArg mk segmented

/-- **Slices need no segmenting.** A slice of the chunk of a text keeps the bounds of its clusters,
counted from the first of them. That is the chunk of the text of these clusters, with the bounds
found anew. A slice of it is cut from the chunk of the whole text as well. -/
theorem slice_anew {content : Text} {start stop : Nat} (ordered : start ≤ stop)
    (inside : stop ≤ Chunk.length (ofText content)) :
    let chunk := ofText content
    let kept := ((Chunk.elements chunk).drop start).take (stop - start)
    let part := Chunk.slice chunk start stop
    let again := ofText kept.flatten
    (Guarded.Access.slice chunk start stop = .ok part ∧
      (do
        let bounds ← Guarded.range (Guarded.bounds 0 chunk.clusters) start (stop + 1)
        let base ← Guarded.get bounds 0
        Guarded.rebase base bounds) = .ok (Guarded.bounds 0 again.clusters)) ∧
    (part.text = again.text ∧ Chunk.length part = Chunk.length again ∧
      Chunk.elements part = Chunk.elements again) ∧
    (part.text = kept.flatten ∧ Chunk.length part = stop - start ∧
      ∀ offset, ∀ cluster ∈ kept[offset]?, Guarded.Access.read part offset = .ok cluster) ∧
    ∀ first last, first ≤ last → last ≤ stop - start →
      Guarded.Access.slice part first last =
          .ok (Chunk.slice chunk (start + first) (start + last)) ∧
        Guarded.Access.slice chunk (start + first) (start + last) =
          .ok (Chunk.slice chunk (start + first) (start + last)) := by
  intro chunk kept part again
  have short : stop ≤ chunk.clusters.length := inside
  have front : (chunk.clusters.take start).length = start :=
    List.length_take_of_le (Nat.le_trans ordered short)
  have width : kept.length = stop - start :=
    List.length_take_of_le (by rw [List.length_drop]; exact Nat.sub_le_sub_right short start)
  have clusters : part.clusters = kept := List.drop_take
  -- Nothing in front of the clusters that are kept bears on the boundaries between them.
  have segmented : Cluster.Segmented kept :=
    ((Cluster.segmented_segment content).drop start).take (stop - start)
  have found : again = part := (ofText_flatten segmented).trans (congrArg mk clusters.symm)
  have size : Chunk.length part = stop - start := (congrArg List.length clusters).trans width
  refine ⟨⟨Guarded.LawfulAccess.slice_eq ordered inside, ?_⟩, ?_, ?_, ?_⟩
  · have bounds := Guarded.rebased_range_between (chunk.clusters.take start)
      ((chunk.clusters.take stop).drop start) (chunk.clusters.drop stop)
    have middle : (chunk.clusters.take stop).drop start = kept := List.drop_take
    rw [append_between ordered, middle, front, width, Nat.add_sub_cancel' ordered] at bounds
    rw [bounds, found, clusters]
  · rw [found]
    exact ⟨rfl, rfl, rfl⟩
  · refine ⟨congrArg List.flatten clusters, size, ?_⟩
    intro offset cluster present
    rw [← clusters] at present
    exact Guarded.LawfulAccess.read_eq present
  · intro first last sorted within
    have later : start + last ≤ stop := by omega
    constructor
    · rw [Guarded.LawfulAccess.slice_eq sorted (size ▸ within), slice_slice chunk start later]
    · exact Guarded.LawfulAccess.slice_eq (Nat.add_le_add_left sorted start)
        (Nat.le_trans later inside)

end Slices

/-- Three of five clusters, the first two of them flags that stand in a row of flags. -/
theorem slice_anew_of_flags :
    let chunk := ofText ['🇩', '🇪', '🇫', '🇷', '🇺', '🇸', '👨', '\u200D', '👩', 'x']
    let part := Chunk.slice chunk 1 4
    (Chunk.length chunk = 5 ∧ Guarded.Access.slice chunk 1 4 = .ok part) ∧
    (part.text = ['🇫', '🇷', '🇺', '🇸', '👨', '\u200D', '👩'] ∧
      Chunk.elements part =
        Chunk.elements (ofText ['🇫', '🇷', '🇺', '🇸', '👨', '\u200D', '👩'])) ∧
    Guarded.Access.slice part 1 3 = .ok (Chunk.slice chunk 2 4) := by
  intro chunk part
  have count : Chunk.length chunk = 5 := by decide +kernel
  have kept : (((Chunk.elements chunk).drop 1).take (4 - 1)).flatten =
      ['🇫', '🇷', '🇺', '🇸', '👨', '\u200D', '👩'] := by decide +kernel
  obtain ⟨⟨sliced, _⟩, ⟨_, _, elements⟩, _, further⟩ :=
    slice_anew (show 1 ≤ 4 by decide) (show 4 ≤ Chunk.length chunk by rw [count]; decide)
  rw [kept] at elements
  have text_eq : part.text = ['🇫', '🇷', '🇺', '🇸', '👨', '\u200D', '👩'] := by decide +kernel
  exact ⟨⟨count, sliced⟩, ⟨text_eq, elements⟩, (further 1 3 (by decide) (by decide)).1⟩

section Splits

variable [CharacterTable]

/-- Whether a text is cut into a row of chunks that, but for the last one, hold as many clusters as
a limit allows. A limit of zero counts as one. -/
structure CutsInto (limit : Nat) (content : Text) (pieces : List GraphemeChunk) : Prop where
  /-- No piece is empty. -/
  filled : ∀ piece ∈ pieces, 0 < Chunk.length piece
  /-- The texts of the pieces make up the text. -/
  joined : pieces.flatMap text = content
  /-- All pieces but the last are full. -/
  full : ∀ piece ∈ pieces.dropLast, Chunk.length piece = max limit 1
  /-- No piece is too long. -/
  short : ∀ piece ∈ pieces, Chunk.length piece ≤ max limit 1
  /-- Each piece has the clusters of its own text. -/
  anew : ∀ piece ∈ pieces, ofText piece.text = piece
  /-- The pieces have the clusters of the text. -/
  clusters_eq : Chunk.elementsOf pieces = Cluster.segment content

/-- What a content is cut into meets the rules for its pieces. -/
theorem cutsInto_split (limit : Nat) (content : Text) :
    CutsInto limit content (split content limit) := by
  have same : split content (max limit 1) = split content limit := by
    rw [split, groups_max_one, split]
  have full : ∀ piece ∈ (split content (max limit 1)).dropLast,
      Chunk.length piece = max limit 1 := length_of_mem_dropLast_split (max_one_pos limit)
  have size : ∀ piece ∈ split content (max limit 1),
      0 < Chunk.length piece ∧ Chunk.length piece ≤ max limit 1 :=
    fun _ member => length_of_mem_split (max_one_pos limit) member
  rw [same] at size full
  exact
    { filled := fun piece member => (size piece member).1
      joined := flatMap_text_split content limit
      full := full
      short := fun piece member => (size piece member).2
      anew := by
        intro piece member
        obtain ⟨group, _, rfl⟩ := List.mem_map.mp member
        rw [text_ofText]
      clusters_eq := elementsOf_split content limit }

/-- There is one way to cut a text. -/
theorem CutsInto.eq_split {limit : Nat} {content : Text} {pieces : List GraphemeChunk}
    (cut : CutsInto limit content pieces) : pieces = split content limit := by
  have full : ∀ group ∈ (pieces.map clusters).dropLast, group.length = max limit 1 := by
    rw [← List.map_dropLast]
    exact List.forall_mem_map.mpr cut.full
  have proper : ∀ group ∈ pieces.map clusters,
      0 < group.length ∧ group.length ≤ max limit 1 :=
    List.forall_mem_map.mpr fun piece member => ⟨cut.filled piece member, cut.short piece member⟩
  have groups_eq : groups limit (Cluster.segment content) = pieces.map clusters := by
    rw [← cut.clusters_eq, Chunk.elementsOf, List.flatMap_def, ← groups_max_one]
    exact groups_flatten (max_one_pos limit) full proper
  rw [split, groups_eq, List.map_map]
  conv_lhs => rw [← List.map_id pieces]
  exact List.map_congr_left fun piece member => (cut.anew piece member).symm

/-- **How texts are split.** Of all rows of chunks, a text is split into the one that has its text
and its clusters, without an empty chunk and with none but the last below the limit. Each chunk is
segmented on its own. A row of chunks, wherever it was cut, is cut anew as its text is split. -/
theorem cutsInto_iff (limit : Nat) :
    (∀ content, Guarded.split content limit = .ok (split content limit) ∧
      ∀ pieces, CutsInto limit content pieces ↔ pieces = split content limit) ∧
    ∀ parts, Guarded.Access.rechunk parts limit = .ok (Chunk.rechunk parts limit) ∧
      ∀ pieces, CutsInto limit (parts.flatMap text) pieces ↔
        pieces = Chunk.rechunk parts limit := by
  have unique (content : Text) (pieces : List GraphemeChunk) :
      CutsInto limit content pieces ↔ pieces = split content limit := by
    constructor
    · exact CutsInto.eq_split
    · rintro rfl
      exact cutsInto_split limit content
  exact ⟨fun content => ⟨Guarded.split_eq content limit, unique content⟩,
    fun parts => ⟨Guarded.LawfulAccess.rechunk_eq parts limit, unique _⟩⟩

end Splits

/-- The parts of the two flags were cut inside of them. -/
example : (Chunk.rechunk [⟨[['🇩']]⟩, ⟨[['🇪', '🇫'], ['🇷']]⟩, ⟨[]⟩] 1).map clusters =
    [[['🇩', '🇪']], [['🇫', '🇷']]] := by decide +kernel

end GraphemeChunk
end GraphemeRope
