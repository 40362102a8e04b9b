import GraphemeRope.Proofs.Rope.Coherence
import Mathlib.Order.Bounds.Basic

/-! # How far a change is widened

A position outside a change has an image in the changed text. Of the positions up to the start of a
change, widening ends at the last whose image is a boundary there, and of those from its end on at
the first (`GraphemeRope.Rope.align_exact`). All positions before the start have such images
already, since what is before them has not changed; so the start moves by one cluster at most, while
the end may move over many. -/

namespace GraphemeRope

/-- How many characters of a changed text are before the image of a position that lies before the
change. -/
def Change.imageBefore (clusters : List Grapheme) (position : Nat) : Nat :=
  (clusters.take position).flatten.length

/-- How many characters of a changed text are before the image of a position that lies after the
change. -/
def Change.imageAfter (clusters : List Grapheme) (changed : Text) (position : Nat) : Nat :=
  changed.length - (clusters.drop position).flatten.length

namespace Rope

section Widening

variable [CharacterTable] {rope : Rope}

section Images

variable (measured : Measured rope) (segmented : Cluster.Segmented rope.elements)
include measured segmented

/-- The outcome of a change has a boundary at its start exactly if the change does not join
there. -/
theorem boundaryAt_start_iff {change : Change} (inside : change.start ≤ rope.elements.length) :
    Cluster.BoundaryAt (change.outcome rope.elements)
        (Change.imageBefore rope.elements change.start) ↔
      rope.joinsBefore change = false := by
  rw [Change.outcome, List.append_assoc, Change.imageBefore, Cluster.boundaryAt_append_iff,
    joinsBefore_eq measured segmented inside, Bool.not_eq_false']

/-- The outcome of a change has a boundary at its stop exactly if the change does not join there. -/
theorem boundaryAt_stop_iff {change : Change} (inside : change.start ≤ rope.elements.length) :
    Cluster.BoundaryAt (change.outcome rope.elements)
        (Change.imageAfter rope.elements (change.outcome rope.elements) change.stop) ↔
      rope.joinsAfter change = false := by
  have image : Change.imageAfter rope.elements (change.outcome rope.elements) change.stop =
      ((rope.elements.take change.start).flatten ++ change.content).length := by
    rw [Change.imageAfter, Change.outcome, List.length_append, Nat.add_sub_cancel]
  rw [image, Change.outcome, Cluster.boundaryAt_append_iff,
    joinsAfter_eq measured segmented inside, Bool.not_eq_false']

omit measured in
/-- A boundary before the start of a change is one of the changed text, because the cluster after it
is still there. -/
theorem boundaryAt_of_lt_start {change : Change} {position : Nat}
    (before : position < change.start) (inside : change.start ≤ rope.elements.length) :
    Cluster.BoundaryAt (change.outcome rope.elements)
      (Change.imageBefore rope.elements position) := by
  have within : position < rope.elements.length := Nat.lt_of_lt_of_le before inside
  obtain ⟨later, reach⟩ := Nat.exists_eq_add_of_lt before
  have kept : rope.elements.take change.start = rope.elements.take position ++
      rope.elements[position] :: (rope.elements.drop (position + 1)).take later := by
    rw [reach, Nat.add_assoc, List.take_add, List.drop_eq_getElem_cons within, List.take_succ_cons]
  have boundary := segmented
  rw [← List.take_append_drop position rope.elements, Cluster.segmented_append_iff,
    List.drop_eq_getElem_cons within, List.flatten_cons] at boundary
  -- What follows a cluster does not matter to whether it starts where it does.
  have filled : rope.elements[position] ≠ [] := fun vacant =>
    segmented.nil_not_mem (vacant ▸ List.getElem_mem within)
  rw [Cluster.isBoundary_append_right _ filled] at boundary
  rw [Change.outcome, kept, List.flatten_append, List.flatten_cons, Change.imageBefore,
    List.append_assoc, List.append_assoc, List.append_assoc, Cluster.boundaryAt_append_iff,
    Cluster.isBoundary_append_right _ filled]
  exact boundary.2.2

end Images

/-- Widening goes in rounds until one leaves the change aligned. -/
theorem exists_rounds (rope : Rope) (change : Change) :
    ∃ rounds, rope.align change = rope.widen^[rounds] change ∧
      rope.isAligned (rope.align change) = true ∧
      ∀ earlier < rounds, ¬rope.isAligned (rope.widen^[earlier] change) = true := by
  induction change using align.induct rope with
  | case1 change aligned =>
      rw [rope.align_of_isAligned aligned]
      exact ⟨0, rfl, aligned, fun earlier never => absurd never (Nat.not_lt_zero earlier)⟩
  | case2 change unaligned ih =>
      obtain ⟨rounds, reached, aligned, before⟩ := ih
      rw [align, if_neg unaligned]
      refine ⟨rounds + 1, reached, aligned, ?_⟩
      intro earlier early
      cases earlier with
      | zero => exact unaligned
      | succ earlier => exact before earlier (Nat.lt_of_succ_lt_succ early)

/-- The positions up to the start of a change whose images are boundaries of the changed text. -/
def boundariesBefore (rope : Rope) (change : Change) : Set Nat :=
  {position | position ≤ change.start ∧
    Cluster.BoundaryAt (change.outcome rope.elements) (Change.imageBefore rope.elements position)}

/-- The positions from the end of a change on whose images are boundaries of the changed text. -/
def boundariesAfter (rope : Rope) (change : Change) : Set Nat :=
  {position | change.stop ≤ position ∧ position ≤ rope.length ∧
    Cluster.BoundaryAt (change.outcome rope.elements)
      (Change.imageAfter rope.elements (change.outcome rope.elements) position)}

section Align

variable (measured : Measured rope) (segmented : Cluster.Segmented rope.elements)
include measured segmented

/-- A round leaves out no boundary: it moves the start only if there is none. -/
theorem boundariesBefore_widen {change : Change} (inside : change.start ≤ rope.elements.length) :
    rope.boundariesBefore (rope.widen change) = rope.boundariesBefore change := by
  ext position
  simp only [boundariesBefore, Set.mem_ofPred_eq, outcome_widen measured inside]
  refine and_congr_left fun boundary => ⟨fun before => ?_, fun before => ?_⟩
  · exact Nat.le_trans before (rope.start_widen_le change)
  · rw [start_widen]
    split
    · next joins =>
        -- The start is moved off a position only where that is no boundary.
        have moved : position ≠ change.start := by
          rintro rfl
          rw [boundaryAt_start_iff measured segmented inside, joins] at boundary
          cases boundary
        omega
    · exact before

/-- A widened change has the same boundaries behind it to choose from. -/
theorem boundariesAfter_widen {change : Change} (inside : change.start ≤ rope.elements.length) :
    rope.boundariesAfter (rope.widen change) = rope.boundariesAfter change := by
  ext position
  simp only [boundariesAfter, Set.mem_ofPred_eq, outcome_widen measured inside]
  refine and_congr_left fun ⟨_, boundary⟩ => ⟨fun after => ?_, fun after => ?_⟩
  · exact Nat.le_trans (rope.le_stop_widen change) after
  · rw [stop_widen]
    split
    · next joins =>
        have moved : position ≠ change.stop := by
          rintro rfl
          rw [boundaryAt_stop_iff measured segmented inside, joins] at boundary
          cases boundary
        omega
    · exact after

/-- Both ends of an aligned change are boundaries of the changed text, and nothing is nearer. -/
theorem extremes_of_isAligned {change : Change} (ordered : change.start ≤ change.stop)
    (inside : change.stop ≤ rope.elements.length) (aligned : rope.isAligned change = true) :
    IsGreatest (rope.boundariesBefore change) change.start ∧
      IsLeast (rope.boundariesAfter change) change.stop := by
  have within := Nat.le_trans ordered inside
  simp only [isAligned, Bool.and_eq_true, Bool.not_eq_true'] at aligned
  refine ⟨⟨⟨Nat.le_refl _, ?_⟩, fun position before => before.1⟩,
    ⟨⟨Nat.le_refl _, measured.length_eq ▸ inside, ?_⟩, fun position after => after.1⟩⟩
  · exact (boundaryAt_start_iff measured segmented within).mpr aligned.1
  · exact (boundaryAt_stop_iff measured segmented within).mpr aligned.2

/-- **Widening ends at the nearest boundaries.** -/
theorem extremes_align {change : Change} (ordered : change.start ≤ change.stop)
    (inside : change.stop ≤ rope.elements.length) :
    IsGreatest (rope.boundariesBefore change) (rope.align change).start ∧
      IsLeast (rope.boundariesAfter change) (rope.align change).stop := by
  induction change using align.induct rope with
  | case1 change aligned =>
      rw [rope.align_of_isAligned aligned]
      exact extremes_of_isAligned measured segmented ordered inside aligned
  | case2 change unaligned ih =>
      have within := Nat.le_trans ordered inside
      -- A round changes neither set, so what is extreme for the wider change is so for this one.
      have widened := ih
        (Nat.le_trans (rope.start_widen_le change)
          (Nat.le_trans ordered (rope.le_stop_widen change)))
        (stop_widen_le measured inside)
      rw [boundariesBefore_widen measured segmented within,
        boundariesAfter_widen measured segmented within] at widened
      rw [align, if_neg unaligned]
      exact widened

omit measured in
/-- The start of a change is widened by one cluster at most. -/
theorem start_le_of_isGreatest {change : Change} (inside : change.start ≤ rope.elements.length)
    {start : Nat} (greatest : IsGreatest (rope.boundariesBefore change) start) :
    change.start ≤ start + 1 := by
  rcases Nat.eq_zero_or_pos change.start with zero | positive
  · omega
  · have before : change.start - 1 < change.start := Nat.sub_lt positive Nat.zero_lt_one
    have reached := greatest.2 ⟨Nat.le_of_lt before, boundaryAt_of_lt_start segmented before inside⟩
    omega

/-- A change is left alone exactly if widening would move neither of its ends. -/
theorem widened?_eq_none_iff {change : Change} (ordered : change.start ≤ change.stop)
    (inside : change.stop ≤ rope.elements.length) :
    rope.widened? change = none ↔
      (rope.align change).start = change.start ∧ (rope.align change).stop = change.stop := by
  constructor
  · intro settled
    have aligned : rope.isAligned change = true := by
      by_contra unaligned
      rw [rope.widened?_of_not_isAligned unaligned] at settled
      cases settled
    rw [rope.align_of_isAligned aligned]
    exact ⟨rfl, rfl⟩
  · rintro ⟨start, stop⟩
    have within := Nat.le_trans ordered inside
    obtain ⟨greatest, least⟩ := extremes_align measured segmented ordered inside
    rw [start] at greatest
    rw [stop] at least
    have before := (boundaryAt_start_iff measured segmented within).mp greatest.1.2
    have after := (boundaryAt_stop_iff measured segmented within).mp least.1.2.2
    refine rope.widened?_of_isAligned ?_
    rw [isAligned, before, after]
    rfl

end Align

/-- **Widening is exact.** Rounds of widening end, with the last position up to the start of a
change and the first from its end on whose images in the changed text are boundaries of it. Nothing
is returned exactly if these are the ends of the change, and otherwise a change that makes the same
text. The start moves by one cluster at most. -/
theorem align_exact {geometry : Geometry} {history : List Edit}
    (reached : Reachable geometry history rope) {change : Change}
    (ordered : change.start ≤ change.stop) (inside : change.stop ≤ rope.length) :
    (∃ rounds, rope.align change = rope.widen^[rounds] change ∧
      rope.isAligned (rope.align change) = true ∧
      ∀ earlier < rounds, ¬rope.isAligned (rope.widen^[earlier] change) = true) ∧
    IsGreatest (rope.boundariesBefore change) (rope.align change).start ∧
    IsLeast (rope.boundariesAfter change) (rope.align change).stop ∧
    (rope.widened? change = none ↔
      (rope.align change).start = change.start ∧ (rope.align change).stop = change.stop) ∧
    (∀ wider, rope.widened? change = some wider → wider = rope.align change ∧
      wider.outcome rope.elements = change.outcome rope.elements) ∧
    change.start ≤ (rope.align change).start + 1 := by
  have measured := reached.measured
  have segmented := reached.segmented
  rw [measured.length_eq] at inside
  have within := Nat.le_trans ordered inside
  obtain ⟨greatest, least⟩ := extremes_align measured segmented ordered inside
  refine ⟨rope.exists_rounds change, greatest, least,
    widened?_eq_none_iff measured segmented ordered inside, ?_,
    start_le_of_isGreatest segmented within greatest⟩
  intro wider widened
  by_cases aligned : rope.isAligned change = true
  · rw [rope.widened?_of_isAligned aligned] at widened
    cases widened
  · rw [rope.widened?_of_not_isAligned aligned] at widened
    cases widened
    exact ⟨rfl, (align_spec measured segmented ordered inside).2.2.1⟩

end Widening

/-- A mark and a regional indicator put in between a letter and two flags. The letter is drawn in
for the mark, and both flags, since all pairs of indicators after the new one shift. -/
theorem align_exact_before_flags :
    let rope := Rope.ofText .standard ['a', '🇩', '🇪', '🇫', '🇷']
    let change : Change := ⟨1, 1, ['\u0301', '🇺']⟩
    rope.align change = ⟨0, 3, ['a', '\u0301', '🇺', '🇩', '🇪', '🇫', '🇷']⟩ ∧
      IsGreatest (rope.boundariesBefore change) 0 ∧ IsLeast (rope.boundariesAfter change) 3 := by
  intro rope change
  have reached : Reachable .standard [] rope := .ofText _ (by decide +kernel)
  have widened : rope.align change = ⟨0, 3, ['a', '\u0301', '🇺', '🇩', '🇪', '🇫', '🇷']⟩ := by
    decide +kernel
  have exact := align_exact reached (show change.start ≤ change.stop by decide)
    (by decide +kernel)
  rw [widened] at exact
  exact ⟨widened, exact.2.1, exact.2.2.1⟩

end Rope
end GraphemeRope
