import GraphemeRope.Proofs.Rope.Shape
import GraphemeRope.Proofs.Tree.Lookup

/-! # Aligning changes

A rope shows its clusters one by one, which is all that aligning a change looks at. Widening a
change keeps the changed text, and when it ends there are boundaries of that text at both ends of
the change. It is enough to have looked at one cluster on each side, because nothing before the last
boundary bears on the next one. The clusters outside the change therefore stay, and those of its
content stand between them (`GraphemeRope.Rope.align_spec`).
-/

namespace GraphemeRope

/-- The clusters after an aligned change of some clusters. -/
def Change.clusters [CharacterTable] (clusters : List Grapheme) (change : Change) :
    List Grapheme :=
  clusters.take change.start ++ Cluster.segment change.content ++ clusters.drop change.stop

namespace Rope

variable [CharacterTable] {rope : Rope}

/-- What holds of the trees of a rope for its lookups to be right. -/
structure Measured (rope : Rope) : Prop where
  left : Tree.Made rope.geometry rope.left
  right : Tree.Made rope.geometry rope.right
  representable : rope.length < 2 ^ Geometry.indexBits

/-- A rope of the right shape is measured rightly if its positions are indices. -/
theorem Shaped.measured {geometry : Geometry} {least : Nat} (shaped : Shaped geometry least rope)
    (representable : rope.length < 2 ^ Geometry.indexBits) : Measured rope := by
  obtain ⟨rfl, left, right, _⟩ := shaped
  exact ⟨left.made, right.made, representable⟩

namespace Measured

theorem windowStart_eq (measured : Measured rope) :
    rope.windowStart = rope.left.elements.length := measured.left.length_eq

/-- The window stops behind its own clusters. -/
theorem windowStop_eq (measured : Measured rope) :
    rope.windowStop = rope.left.elements.length + rope.window.clusters.length :=
  congrArg (· + Chunk.length rope.window) measured.left.length_eq

theorem length_eq (measured : Measured rope) : rope.length = rope.elements.length := by
  rw [Rope.length, measured.windowStop_eq, measured.right.length_eq, elements, List.length_append,
    List.length_append]

/-- **A rope shows its clusters.** -/
theorem element_eq (measured : Measured rope) (index : Nat) :
    rope.element index =
      if inside : index < rope.elements.length then .ok rope.elements[index]
      else .error (.indexOutOfRange index rope.length) := by
  have representable := measured.representable
  have shorter : rope.left.length + Chunk.length rope.window + rope.right.length = rope.length :=
    rfl
  rw [element, measured.left.elementAt_eq (by omega), measured.right.elementAt_eq (by omega),
    measured.length_eq]
  by_cases inside : index < rope.elements.length
  · rw [if_neg (Nat.not_le_of_lt inside), dif_pos inside, measured.windowStart_eq,
      measured.windowStop_eq]
    simp only [elements, List.append_assoc, List.length_append] at inside ⊢
    by_cases first : index < rope.left.elements.length
    · rw [if_pos first, dif_pos first, List.getElem_append_left first]
    · have after := Nat.le_of_not_lt first
      rw [if_neg first, List.getElem_append_right after]
      by_cases second : index - rope.left.elements.length < rope.window.clusters.length
      · have found : Chunk.element? rope.window (index - rope.left.elements.length) =
            some rope.window.clusters[index - rope.left.elements.length] :=
          List.getElem?_eq_getElem second
        rw [if_pos (by omega), found, List.getElem_append_left second]
      · rw [if_neg (by omega), dif_pos (by omega),
          List.getElem_append_right (Nat.le_of_not_lt second)]
        simp only [Nat.sub_sub]
  · rw [if_pos (Nat.le_of_not_lt inside), dif_neg inside]

/-- The cluster before a position. -/
theorem clusterBefore_succ (measured : Measured rope) {position : Nat}
    (inside : position < rope.elements.length) :
    rope.clusterBefore (position + 1) = rope.elements[position] := by
  rw [clusterBefore, if_neg (Nat.succ_ne_zero position), Nat.add_sub_cancel, measured.element_eq,
    dif_pos inside]
  rfl

/-- From a position inside the rope on the next cluster is the one there. -/
theorem clusterFrom_of_lt (measured : Measured rope) {position : Nat}
    (inside : position < rope.elements.length) :
    rope.clusterFrom position = rope.elements[position] := by
  rw [clusterFrom, if_pos (measured.length_eq ▸ inside), measured.element_eq, dif_pos inside]
  rfl

end Measured

/-- No cluster is before the first position. -/
theorem clusterBefore_zero (rope : Rope) : rope.clusterBefore 0 = [] := if_pos rfl

/-- No cluster is behind the last position. -/
theorem clusterFrom_of_le {position : Nat} (outside : rope.length ≤ position) :
    rope.clusterFrom position = [] := if_neg (Nat.not_lt_of_le outside)

/-- A change is widened to the left by the cluster that it joins there. -/
theorem start_widen (rope : Rope) (change : Change) :
    (rope.widen change).start =
      if rope.joinsBefore change then change.start - 1 else change.start := rfl

/-- A change is widened to the right by the cluster that it joins there. -/
theorem stop_widen (rope : Rope) (change : Change) :
    (rope.widen change).stop =
      if rope.joinsAfter change then change.stop + 1 else change.stop := rfl

/-- A widened change does not start later. -/
theorem start_widen_le (rope : Rope) (change : Change) :
    (rope.widen change).start ≤ change.start := by
  rw [start_widen]
  split
  · exact Nat.sub_le _ _
  · exact Nat.le_refl _

theorem le_stop_widen (rope : Rope) (change : Change) :
    change.stop ≤ (rope.widen change).stop := by
  rw [stop_widen]
  split
  · exact Nat.le_succ _
  · exact Nat.le_refl _

/-- A change inside the rope is still inside when it is widened. -/
theorem stop_widen_le (measured : Measured rope) {change : Change}
    (inside : change.stop ≤ rope.elements.length) :
    (rope.widen change).stop ≤ rope.elements.length := by
  rw [stop_widen]
  split
  · next joins => exact measured.length_eq ▸ stop_lt_of_joinsAfter joins
  · exact inside

section Widen

variable (measured : Measured rope)
include measured

/-- What is before a change is what is before the widened one and the cluster it took in there. -/
theorem flatten_take_widen {change : Change} (inside : change.start ≤ rope.elements.length) :
    (rope.elements.take (rope.widen change).start).flatten ++
      (if rope.joinsBefore change then rope.clusterBefore change.start else []) =
        (rope.elements.take change.start).flatten := by
  by_cases joins : rope.joinsBefore change = true
  · obtain ⟨before, same⟩ := Nat.exists_eq_add_of_lt (start_pos_of_joinsBefore joins)
    rw [Nat.zero_add] at same
    simp only [widen, joins, ↓reduceIte, same, Nat.add_sub_cancel]
    rw [measured.clusterBefore_succ (by omega), List.take_succ_eq_append_getElem (by omega),
      List.flatten_append, List.flatten_singleton]
  · simp only [widen, joins, Bool.false_eq_true, ↓reduceIte, List.append_nil]

/-- What is behind a change is the cluster that the widened one took in there and what is behind
it. -/
theorem flatten_drop_widen (change : Change) :
    (if rope.joinsAfter change then rope.clusterFrom change.stop else []) ++
      (rope.elements.drop (rope.widen change).stop).flatten =
        (rope.elements.drop change.stop).flatten := by
  by_cases joins : rope.joinsAfter change = true
  · have inside : change.stop < rope.elements.length :=
      measured.length_eq ▸ stop_lt_of_joinsAfter joins
    simp only [widen, joins, ↓reduceIte]
    rw [measured.clusterFrom_of_lt inside, List.drop_eq_getElem_cons inside, List.flatten_cons]
  · simp only [widen, joins, Bool.false_eq_true, ↓reduceIte, List.nil_append]

/-- Widening moves clusters into the content and keeps the changed text. -/
theorem outcome_widen {change : Change} (inside : change.start ≤ rope.elements.length) :
    (rope.widen change).outcome rope.elements = change.outcome rope.elements := by
  rw [Change.outcome, Change.outcome, ← flatten_take_widen measured inside,
    ← flatten_drop_widen measured change]
  simp only [widen, List.append_assoc]

end Widen

section Boundary

variable (measured : Measured rope) (segmented : Cluster.Segmented rope.elements)
include measured segmented

/-- Of what is before a position, only the cluster there bears on whether there is a boundary
later on. -/
theorem isBoundary_take {position : Nat} (inside : position ≤ rope.elements.length)
    (content rear : Text) :
    Cluster.isBoundary ((rope.elements.take position).flatten ++ content) rear =
      Cluster.isBoundary (rope.clusterBefore position ++ content) rear := by
  cases position with
  | zero => rw [clusterBefore_zero, List.take_zero, List.flatten_nil]
  | succ before =>
      have within : before < rope.elements.length := inside
      have front := segmented
      rw [← List.take_append_drop (before + 1) rope.elements, Cluster.segmented_append_iff,
        List.take_succ_eq_append_getElem within] at front
      rw [measured.clusterBefore_succ within, List.take_succ_eq_append_getElem within,
        Cluster.isBoundary_append_of_segmented front.1]

/-- What is from a position on begins with the cluster there, unless the position is at the end. -/
theorem exists_flatten_drop (position : Nat) :
    ∃ more, (rope.elements.drop position).flatten = rope.clusterFrom position ++ more ∧
      (rope.clusterFrom position = [] → more = []) := by
  by_cases inside : position < rope.elements.length
  · rw [measured.clusterFrom_of_lt inside, List.drop_eq_getElem_cons inside]
    refine ⟨(rope.elements.drop (position + 1)).flatten, List.flatten_cons, fun vacant => ?_⟩
    exact absurd (vacant ▸ List.getElem_mem inside) segmented.nil_not_mem
  · have outside := Nat.le_of_not_lt inside
    rw [clusterFrom_of_le (measured.length_eq ▸ outside), List.drop_eq_nil_of_le outside]
    exact ⟨[], rfl, fun _ => rfl⟩

/-- The content of a change holds together with what is before it exactly if there is no boundary of
the changed text between them. -/
theorem joinsBefore_eq {change : Change} (inside : change.start ≤ rope.elements.length) :
    rope.joinsBefore change =
      !Cluster.isBoundary (rope.elements.take change.start).flatten
        (change.content ++ (rope.elements.drop change.stop).flatten) := by
  obtain ⟨more, rear, last⟩ := exists_flatten_drop measured segmented change.stop
  have front := isBoundary_take measured segmented inside []
    (change.content ++ (rope.elements.drop change.stop).flatten)
  have near : Cluster.isBoundary (rope.clusterBefore change.start)
      (change.content ++ rope.clusterFrom change.stop ++ more) =
        Cluster.isBoundary (rope.clusterBefore change.start)
          (change.content ++ rope.clusterFrom change.stop) := by
    by_cases vacant : change.content ++ rope.clusterFrom change.stop = []
    · rw [last (List.append_eq_nil_iff.mp vacant).2, List.append_nil]
    · exact Cluster.isBoundary_append_right _ vacant more
  rw [List.append_nil, List.append_nil] at front
  rw [front, rear, ← List.append_assoc, near, joinsBefore]
  cases rope.clusterBefore change.start with
  | nil => rw [Cluster.isBoundary_nil_left]; rfl
  | cons c before => rw [List.isEmpty_cons, Bool.not_false, Bool.true_and]

/-- The content of a change holds together with what is after it exactly if there is no boundary of
the changed text between them. -/
theorem joinsAfter_eq {change : Change} (inside : change.start ≤ rope.elements.length) :
    rope.joinsAfter change =
      !Cluster.isBoundary ((rope.elements.take change.start).flatten ++ change.content)
        (rope.elements.drop change.stop).flatten := by
  obtain ⟨more, rear, last⟩ := exists_flatten_drop measured segmented change.stop
  rw [isBoundary_take measured segmented inside, rear, joinsAfter]
  by_cases vacant : rope.clusterFrom change.stop = []
  · rw [vacant, last vacant]
    rfl
  · rw [Cluster.isBoundary_append_right _ vacant,
      Bool.eq_false_iff.mpr fun empty => vacant (List.isEmpty_iff.mp empty), Bool.not_false,
      Bool.true_and]

/-- A change is aligned exactly if there are boundaries of the changed text at both its ends. -/
theorem isAligned_iff {change : Change} (inside : change.start ≤ rope.elements.length) :
    rope.isAligned change = true ↔
      Cluster.isBoundary (rope.elements.take change.start).flatten
          (change.content ++ (rope.elements.drop change.stop).flatten) = true ∧
        Cluster.isBoundary ((rope.elements.take change.start).flatten ++ change.content)
          (rope.elements.drop change.stop).flatten = true := by
  rw [isAligned, joinsBefore_eq measured segmented inside, joinsAfter_eq measured segmented inside,
    Bool.not_not, Bool.not_not, Bool.and_eq_true]

/-- An aligned change leaves clusters that are segmented. -/
theorem segmented_clusters_of_isAligned {change : Change}
    (inside : change.start ≤ rope.elements.length) (aligned : rope.isAligned change = true) :
    Cluster.Segmented (change.clusters rope.elements) := by
  obtain ⟨atStart, atStop⟩ := (isAligned_iff measured segmented inside).mp aligned
  exact Cluster.segmented_replaced (segmented.take change.start) (segmented.drop change.stop)
    atStart atStop

end Boundary

/-- **Aligning.** A change that is widened until it is aligned still replaces clusters that there
are. It makes the same text of them, and leaves clusters that are segmented. -/
theorem align_spec (measured : Measured rope) (segmented : Cluster.Segmented rope.elements)
    {change : Change} (ordered : change.start ≤ change.stop)
    (inside : change.stop ≤ rope.elements.length) :
    (rope.align change).start ≤ (rope.align change).stop ∧
      (rope.align change).stop ≤ rope.elements.length ∧
      (rope.align change).outcome rope.elements = change.outcome rope.elements ∧
      Cluster.Segmented ((rope.align change).clusters rope.elements) := by
  induction change using align.induct rope with
  | case1 change aligned =>
      rw [rope.align_of_isAligned aligned]
      exact ⟨ordered, inside, rfl, segmented_clusters_of_isAligned measured segmented
        (Nat.le_trans ordered inside) aligned⟩
  | case2 change unaligned ih =>
      have start := rope.start_widen_le change
      have stop := rope.le_stop_widen change
      have same := outcome_widen measured (Nat.le_trans ordered inside)
      rw [align, if_neg unaligned, ← same]
      exact ih (by omega) (stop_widen_le measured inside)

end Rope
end GraphemeRope
