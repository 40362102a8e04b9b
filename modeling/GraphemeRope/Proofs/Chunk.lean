import GraphemeRope.Chunk.Grapheme
import GraphemeRope.Chunk.Unit
import GraphemeRope.Proofs.Cluster.Segmentation
import GraphemeRope.Proofs.Row

/-! # Laws of chunks

Whatever the elements of a chunk are, cutting a chunk cuts its elements, and cutting a row anew
gives chunks that are neither empty nor too long. Chunks of text and chunks of units obey these
laws. Of a text, cutting anew keeps the clusters, although each piece is segmented on its own
(`GraphemeRope.GraphemeChunk.elementsOf_split`).
-/

namespace GraphemeRope

namespace Chunk

variable {α ε : Type} [Chunk α ε]

/-- The elements of a row of chunks in order. -/
def elementsOf (row : List α) : List ε := row.flatMap elements

@[simp]
theorem elementsOf_nil : elementsOf ([] : List α) = [] := rfl

@[simp]
theorem elementsOf_cons (chunk : α) (row : List α) :
    elementsOf (chunk :: row) = elements chunk ++ elementsOf row := rfl

@[simp]
theorem elementsOf_append (front rear : List α) :
    elementsOf (front ++ rear) = elementsOf front ++ elementsOf rear :=
  List.flatMap_append

/-- The lengths of a row of chunks add up to the number of its elements. -/
theorem total_lengths (row : List α) : total (row.map length) = (elementsOf row).length := by
  induction row with
  | nil => rfl
  | cons chunk row ih =>
      rw [List.map_cons, total, ih, elementsOf_cons, List.length_append, length]

/-- The elements of a row before an offset of one of its chunks. -/
theorem take_elementsOf_owner (front rear : List α) {owner : α} {offset : Nat}
    (inside : offset ≤ length owner) :
    (elementsOf (front ++ owner :: rear)).take ((elementsOf front).length + offset) =
      elementsOf front ++ (elements owner).take offset := by
  rw [elementsOf_append, List.take_length_add_append, elementsOf_cons,
    List.take_append_of_le_length inside]

/-- The elements of a row from an offset of one of its chunks on. -/
theorem drop_elementsOf_owner (front rear : List α) {owner : α} {offset : Nat}
    (inside : offset ≤ length owner) :
    (elementsOf (front ++ owner :: rear)).drop ((elementsOf front).length + offset) =
      (elements owner).drop offset ++ elementsOf rear := by
  rw [elementsOf_append, List.drop_length_add_append, elementsOf_cons,
    List.drop_append_of_le_length inside]

theorem elements_eq_nil {chunk : α} (empty : length chunk = 0) : elements chunk = [] :=
  List.eq_nil_of_length_eq_zero empty

theorem isEmpty_iff {chunk : α} : isEmpty chunk = true ↔ length chunk = 0 := by
  rw [isEmpty, decide_eq_true_eq]

/-- Whether the length of a chunk lies between two bounds. -/
def Within (least most : Nat) (chunk : α) : Prop := least ≤ length chunk ∧ length chunk ≤ most

end Chunk

/-- Chunks that are cut as their elements are. -/
class LawfulChunk (α : Type) {ε : outParam Type} [Chunk α ε] : Prop where
  elements_empty : Chunk.elements (Chunk.empty : α) = []
  elements_take (chunk : α) (count : Nat) :
    Chunk.elements (Chunk.take chunk count) = (Chunk.elements chunk).take count
  elements_drop (chunk : α) (start : Nat) :
    Chunk.elements (Chunk.drop chunk start) = (Chunk.elements chunk).drop start
  length_of_mem_rechunk {parts : List α} {limit : Nat} {piece : α} (positive : 0 < limit)
    (member : piece ∈ Chunk.rechunk parts limit) :
    0 < Chunk.length piece ∧ Chunk.length piece ≤ limit
  rechunk_ne_nil {parts : List α} {part : α} {limit : Nat} (member : part ∈ parts)
    (filled : Chunk.rechunk [part] limit ≠ []) : Chunk.rechunk parts limit ≠ []

namespace Chunk

variable {α ε : Type} [Chunk α ε] [LawfulChunk α]

theorem length_take (chunk : α) (count : Nat) :
    length (take chunk count) = min count (length chunk) := by
  rw [length, LawfulChunk.elements_take, List.length_take, length]

theorem length_drop (chunk : α) (start : Nat) :
    length (drop chunk start) = length chunk - start := by
  rw [length, LawfulChunk.elements_drop, List.length_drop, length]

/-- Chunks that were cut anew are neither empty nor too long. -/
theorem within_rechunk {least limit : Nat} (cuttable : least ≤ 1) (positive : 0 < limit)
    (parts : List α) : ∀ piece ∈ rechunk parts limit, Within least limit piece := by
  intro piece member
  have size := LawfulChunk.length_of_mem_rechunk positive member
  exact ⟨Nat.le_trans cuttable size.1, size.2⟩

end Chunk

namespace UnitChunk

/-- The units of a row cut anew are those of the row. -/
theorem elementsOf_rechunk (parts : List UnitChunk) (limit : Nat) :
    Chunk.elementsOf (Chunk.rechunk parts limit) = Chunk.elementsOf parts := by
  rw [Chunk.elementsOf, List.flatMap_def]
  change (((groups limit (parts.flatMap units)).map mk).map units).flatten = parts.flatMap units
  rw [List.map_map, ← flatten_groups limit (parts.flatMap units)]
  simp only [Function.comp_def, List.map_id_fun', id_eq, flatten_groups]

end UnitChunk

instance : LawfulChunk UnitChunk where
  elements_empty := rfl
  elements_take _ _ := rfl
  elements_drop _ _ := rfl
  length_of_mem_rechunk positive member := by
    obtain ⟨group, grouped, rfl⟩ := List.mem_map.mp member
    exact length_of_mem_groups positive grouped
  rechunk_ne_nil := by
    intro parts part limit member filled none
    have joined : parts.flatMap UnitChunk.units = [] := groups_eq_nil (List.map_eq_nil_iff.mp none)
    have single : [part].flatMap UnitChunk.units = [] := by
      rw [List.flatMap_singleton]
      exact List.flatMap_eq_nil_iff.mp joined part member
    apply filled
    show (groups limit ([part].flatMap UnitChunk.units)).map UnitChunk.mk = []
    rw [single, groups_nil, List.map_nil]

namespace GraphemeChunk

/-- The text of a chunk is that of its clusters. -/
theorem text_eq (chunk : GraphemeChunk) : chunk.text = chunk.clusters.flatten := rfl

variable [CharacterTable]

@[simp]
theorem text_ofText (text : Text) : (ofText text).text = text := Cluster.flatten_segment text

/-- A group of the clusters of a text is segmented. -/
theorem segmented_of_mem_groups {text : Text} {limit : Nat} {group : List Grapheme}
    (member : group ∈ groups limit (Cluster.segment text)) : Cluster.Segmented group := by
  obtain ⟨front, rear, cut⟩ := append_of_mem_groups member
  have whole := Cluster.segmented_segment text
  rw [cut, Cluster.segmented_append_iff, Cluster.segmented_append_iff] at whole
  exact whole.1.2.1

/-- The pieces of a text are the groups of its clusters, each segmented on its own. -/
theorem clusters_split (text : Text) (limit : Nat) :
    (split text limit).map clusters = groups limit (Cluster.segment text) := by
  rw [split, List.map_map]
  conv_rhs => rw [← List.map_id (groups limit (Cluster.segment text))]
  apply List.map_congr_left
  intro group member
  exact segmented_of_mem_groups member

theorem split_nil (limit : Nat) : split [] limit = [] := by
  rw [split, Cluster.segment_nil, groups_nil, List.map_nil]

/-- **Cutting keeps the clusters.** The clusters of the pieces of a text are those of the text. -/
theorem elementsOf_split (text : Text) (limit : Nat) :
    Chunk.elementsOf (split text limit) = Cluster.segment text := by
  rw [← flatten_groups limit (Cluster.segment text), ← clusters_split, ← List.flatMap_def]
  rfl

/-- No piece of a text is empty or greater than the limit. -/
theorem length_of_mem_split {text : Text} {limit : Nat} (positive : 0 < limit)
    {piece : GraphemeChunk} (member : piece ∈ split text limit) :
    0 < Chunk.length piece ∧ Chunk.length piece ≤ limit := by
  have grouped : piece.clusters ∈ groups limit (Cluster.segment text) := by
    rw [← clusters_split]
    exact List.mem_map_of_mem member
  exact length_of_mem_groups positive grouped

/-- The pieces of a text are neither empty nor too long. -/
theorem within_split {least limit : Nat} (cuttable : least ≤ 1) (positive : 0 < limit)
    (text : Text) : ∀ piece ∈ split text limit, Chunk.Within least limit piece := by
  intro piece member
  have size := length_of_mem_split positive member
  exact ⟨Nat.le_trans cuttable size.1, size.2⟩

/-- A text is cut into as many pieces as it takes to hold its clusters. -/
theorem length_split {limit : Nat} (positive : 0 < limit) (text : Text) :
    (split text limit).length = ((Cluster.segment text).length + limit - 1) / limit := by
  rw [split, List.length_map, length_groups positive]

/-- All pieces of a text but the last have as many clusters as they can. -/
theorem length_of_mem_dropLast_split {text : Text} {limit : Nat} (positive : 0 < limit) :
    ∀ piece ∈ (split text limit).dropLast, Chunk.length piece = limit := by
  intro piece member
  have grouped : piece.clusters ∈ (groups limit (Cluster.segment text)).dropLast := by
    rw [← clusters_split, ← List.map_dropLast]
    exact List.mem_map_of_mem member
  exact length_of_mem_dropLast_groups positive _ _ grouped

/-- **Cutting a text that goes on.** More text after a text changes only the last of its pieces,
since a boundary is in front of that. -/
theorem split_append {limit : Nat} (positive : 0 < limit) (text more : Text) :
    split (text ++ more) limit = (split text limit).dropLast ++
      split (((split text limit).getLast?.getD Chunk.empty).text ++ more) limit := by
  by_cases vacant : Cluster.segment text = []
  · have blank : text = [] := by rw [← Cluster.flatten_segment text, vacant, List.flatten_nil]
    rw [blank]
    simp only [split_nil, List.dropLast_nil, List.getLast?_nil, Option.getD_none]
    rfl
  · obtain ⟨blocks, last, cut, joined, ends, full⟩ := exists_last_group positive vacant
    have whole := Cluster.segmented_segment text
    rw [joined, Cluster.segmented_append_iff] at whole
    obtain ⟨front, rear, boundary⟩ := whole
    obtain ⟨cluster, others, rfl⟩ := List.exists_cons_of_ne_nil ends
    have present : (cluster :: others).flatten ≠ [] := by
      intro blank
      rw [List.flatten_cons, List.append_eq_nil_iff] at blank
      exact absurd (blank.1 ▸ List.mem_cons_self) rear.nil_not_mem
    rw [← Cluster.isBoundary_append_right _ present more] at boundary
    have clusters : Cluster.segment (text ++ more) =
        blocks.flatten ++ Cluster.segment ((cluster :: others).flatten ++ more) := by
      rw [← Cluster.flatten_segment text, joined, List.flatten_append, List.append_assoc,
        Cluster.segment_append boundary, front]
    simp only [split, cut, clusters, groups_flatten_append positive full, List.map_append,
      List.map_singleton, List.dropLast_concat, List.getLast?_concat, Option.getD_some,
      text_ofText]

/-- Only the chunk of no text is empty. -/
theorem isEmpty_ofText_iff {text : Text} : Chunk.isEmpty (ofText text) = true ↔ text = [] := by
  rw [Chunk.isEmpty_iff]
  constructor
  · intro vacant
    rw [← text_ofText text, text_eq]
    exact congrArg List.flatten (Chunk.elements_eq_nil vacant)
  · rintro rfl
    rfl

theorem split_eq_nil_iff {text : Text} {limit : Nat} : split text limit = [] ↔ text = [] := by
  rw [split, List.map_eq_nil_iff]
  constructor
  · intro nothing
    rw [← Cluster.flatten_segment text, groups_eq_nil nothing, List.flatten_nil]
  · rintro rfl
    exact groups_nil limit

instance : LawfulChunk GraphemeChunk where
  elements_empty := rfl
  elements_take _ _ := rfl
  elements_drop _ _ := rfl
  length_of_mem_rechunk positive member := length_of_mem_split positive member
  rechunk_ne_nil := by
    intro parts part limit member filled none
    have single : [part].flatMap text = [] := by
      rw [List.flatMap_singleton]
      exact List.flatMap_eq_nil_iff.mp (split_eq_nil_iff.mp none) part member
    exact filled (split_eq_nil_iff.mpr single)

/-- A text that is not empty is cut into pieces. -/
theorem rechunk_ofText_ne_nil {text : Text} {limit : Nat} (filled : text ≠ []) :
    Chunk.rechunk [ofText text] limit ≠ [] := by
  intro nothing
  have vacant := split_eq_nil_iff.mp nothing
  rw [List.flatMap_singleton, text_ofText] at vacant
  exact filled vacant

/-- The text of a row of chunks is that of its clusters. -/
theorem flatMap_text (row : List GraphemeChunk) :
    row.flatMap text = (Chunk.elementsOf row).flatten := by
  induction row with
  | nil => rfl
  | cons chunk row ih =>
      rw [List.flatMap_cons, ih, Chunk.elementsOf_cons, List.flatten_append]
      rfl

/-- The pieces of a text make up the text. -/
theorem flatMap_text_split (content : Text) (limit : Nat) :
    (split content limit).flatMap text = content := by
  rw [flatMap_text, elementsOf_split, Cluster.flatten_segment]

/-- The text of the one chunk of a content is the content. -/
theorem flatten_single (content : Text) :
    (Chunk.elementsOf [ofText content]).flatten = content := by
  simp only [Chunk.elementsOf_cons, Chunk.elementsOf_nil, List.append_nil]
  exact text_ofText content

/-- The text of a content between two chunks is between theirs. -/
theorem flatten_between (before after : GraphemeChunk) (content : Text) :
    (Chunk.elementsOf [before, ofText content, after]).flatten =
      before.clusters.flatten ++ content ++ after.clusters.flatten := by
  rw [Chunk.elementsOf_cons, List.flatten_append, Chunk.elementsOf_cons, List.flatten_append,
    Chunk.elementsOf_cons, Chunk.elementsOf_nil, List.append_nil, ← List.append_assoc]
  exact congrArg (before.clusters.flatten ++ · ++ after.clusters.flatten) (text_ofText content)

/-- The clusters of a row cut anew are those of the text of the row. -/
theorem elementsOf_rechunk (parts : List GraphemeChunk) (limit : Nat) :
    Chunk.elementsOf (Chunk.rechunk parts limit) =
      Cluster.segment (Chunk.elementsOf parts).flatten := by
  rw [← flatMap_text]
  exact elementsOf_split _ limit

end GraphemeChunk
end GraphemeRope
