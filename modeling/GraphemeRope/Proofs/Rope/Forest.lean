import GraphemeRope.Proofs.Cursor.Span
import GraphemeRope.Proofs.Rope.Align

/-! # What the cursors of a rope show

The two trees of a rope and the leaf of its window are a forest that holds the clusters of the rope,
so its cursors show these in order, and two ropes that are compared by their cursors are the same if
they hold the same clusters (`GraphemeRope.Rope.beq_iff`). -/

namespace GraphemeRope
namespace Rope

variable [CharacterTable] {rope : Rope}

/-- The forest of a rope of made trees is counted. -/
theorem forest_counted (left : Tree.Made rope.geometry rope.left)
    (right : Tree.Made rope.geometry rope.right) : ∀ tree ∈ rope.forest, Tree.Counted tree := by
  intro tree member
  rw [forest, List.mem_cons, List.mem_cons, List.mem_singleton] at member
  rcases member with rfl | rfl | rfl
  · exact left.counted
  · exact (Tree.Made.leaf _).counted
  · exact right.counted

theorem Measured.forest_counted (measured : Measured rope) :
    ∀ tree ∈ rope.forest, Tree.Counted tree :=
  Rope.forest_counted measured.left measured.right

theorem Shaped.forest_counted {geometry : Geometry} {least : Nat}
    (shaped : Shaped geometry least rope) : ∀ tree ∈ rope.forest, Tree.Counted tree := by
  obtain ⟨rfl, left, right, _⟩ := shaped
  exact Rope.forest_counted left.made right.made

/-- The forest of a rope has its clusters. -/
theorem forestElements_forest (rope : Rope) : forestElements rope.forest = rope.elements := by
  have window : (Tree.makeLeaf rope.geometry [rope.window]).elements = rope.window.clusters :=
    List.append_nil _
  simp only [forest, forestElements, List.flatMap_cons, List.flatMap_nil, List.append_nil, window,
    elements, List.append_assoc]

theorem forestLength_forest (rope : Rope) : forestLength rope.forest = rope.length := by
  have window : (Tree.makeLeaf rope.geometry [rope.window]).length = Chunk.length rope.window :=
    Nat.add_zero _
  simp only [forest, forestLength, List.map_cons, List.map_nil, total, window, Nat.add_zero, length,
    windowStop, windowStart, Nat.add_assoc]

/-- The span of a rope goes from its first position to its end. -/
theorem span_eq (rope : Rope) :
    rope.span = Span.between rope.forest 0 (forestLength rope.forest) := by
  rw [Span.between, Cursor.locate_past (Nat.le_refl _)]
  rfl

section Counted

variable (counted : ∀ tree ∈ rope.forest, Tree.Counted tree)
include counted

/-- The length of a rope whose forest is counted is the number of its clusters. -/
theorem length_eq_of_counted : rope.length = rope.elements.length := by
  rw [← forestLength_forest, Cursor.length_forestElements counted, forestElements_forest]

/-- The span of a rope yields its clusters. -/
theorem toList_span : rope.span.toList = rope.elements := by
  rw [span_eq, Span.toList_between counted (Nat.zero_le _) (Nat.le_refl _),
    Cursor.length_forestElements counted, List.drop_zero, Nat.sub_zero, List.take_length,
    forestElements_forest]

/-- **Comparing ropes.** Ropes with right lengths are the same if they hold the same clusters. -/
theorem beq_iff {other : Rope} (others : ∀ tree ∈ other.forest, Tree.Counted tree) :
    (rope == other) = true ↔ rope.elements = other.elements := by
  have unfolded : (rope == other) =
      (rope.length == other.length && rope.span.toList == other.span.toList) := rfl
  rw [unfolded, toList_span counted, toList_span others, length_eq_of_counted counted,
    length_eq_of_counted others, Bool.and_eq_true, beq_iff_eq, beq_iff_eq]
  exact ⟨fun same => same.2, fun same => ⟨congrArg List.length same, same⟩⟩

end Counted

end Rope
end GraphemeRope
