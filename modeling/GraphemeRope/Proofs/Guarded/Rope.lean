import GraphemeRope.Guarded.Rope
import GraphemeRope.Proofs.Cursor.Move
import GraphemeRope.Proofs.Guarded.Tree
import GraphemeRope.Proofs.Rope.Coherence

/-! # Guarded operations of ropes are safe

No lookup and no edit of a reachable rope meets a fault, whatever the positions and texts, and each
gives what the unguarded one gives. -/

namespace GraphemeRope
namespace Guarded

variable [CharacterTable] {rope : Rope}

section Lookups

variable (measured : Rope.Measured rope)
include measured

/-- **Looking up a cluster is safe.** -/
theorem element_eq (index : Nat) : element rope index = .ok (rope.element index) := by
  have bounded := measured.representable
  have parts : rope.left.length + Chunk.length rope.window + rope.right.length = rope.length := rfl
  have left : rope.left.length < 2 ^ Geometry.indexBits := by omega
  have right : rope.right.length < 2 ^ Geometry.indexBits := by omega
  rw [element, Rope.element, treeElementAt_eq measured.left left]
  by_cases outside : rope.length ≤ index
  · rw [if_pos outside, if_pos outside]
  · rw [if_neg outside, if_neg outside]
    by_cases before : index < rope.windowStart
    · rw [if_pos before, if_pos before]
    · have start := Nat.le_of_not_lt before
      rw [if_neg before, if_neg before]
      by_cases inWindow : index < rope.windowStop
      · have within : index - rope.windowStart < rope.window.clusters.length := by
          have stop : rope.windowStop = rope.windowStart + rope.window.clusters.length := rfl
          omega
        have present : Chunk.element? rope.window (index - rope.windowStart) =
            some rope.window.clusters[index - rope.windowStart] := List.getElem?_eq_getElem within
        rw [if_pos inWindow, if_pos inWindow, sub_of_le start, ok_bind,
          LawfulAccess.read_eq present, present]
        rfl
      · rw [if_neg inWindow, if_neg inWindow, sub_of_le (Nat.le_of_not_lt inWindow), ok_bind,
          treeElementAt_eq measured.right right]

/-- Where there is a cluster, it is found. -/
theorem presentElement_eq {index : Nat} (inside : index < rope.length) :
    presentElement rope index = .ok ((rope.element index).toOption.getD []) := by
  have found := measured.element_eq index
  rw [measured.length_eq] at inside
  rw [dif_pos inside] at found
  rw [presentElement, element_eq measured, found]
  rfl

/-- The cluster before a position of the rope is read without a fault. -/
theorem clusterBefore_eq {position : Nat} (inside : position ≤ rope.length) :
    clusterBefore rope position = .ok (rope.clusterBefore position) := by
  rw [clusterBefore, Rope.clusterBefore]
  by_cases first : position = 0
  · rw [if_pos first, if_pos first]
  · rw [if_neg first, if_neg first, sub_of_le (Nat.pos_of_ne_zero first), ok_bind,
      presentElement_eq measured (by omega)]

theorem clusterFrom_eq (position : Nat) :
    clusterFrom rope position = .ok (rope.clusterFrom position) := by
  rw [clusterFrom, Rope.clusterFrom]
  by_cases inside : position < rope.length
  · rw [if_pos inside, if_pos inside, presentElement_eq measured inside]
  · rw [if_neg inside, if_neg inside]

end Lookups

section Aligning

/-- Whether a cluster joins a text at a byte between two characters is decided by the boundary
there. -/
theorem joinsAt_eq (neighbour front rear : Text) :
    joinsAt neighbour (front ++ rear) (byteCount front) =
      .ok (!neighbour.isEmpty && !Cluster.isBoundary front rear) := by
  rw [joinsAt]
  cases neighbour.isEmpty with
  | true => rfl
  | false =>
      rw [takeBytes_append, dropBytes_append]
      rfl

omit [CharacterTable] in
/-- A text is cut out with the neighbours that are drawn in. -/
theorem byteRange_drawn (before content after : Text) (growStart growStop : Bool) :
    byteRange (before ++ (content ++ after)) (if growStart then 0 else byteCount before)
        (if growStop then byteCount (before ++ (content ++ after))
          else byteCount before + byteCount content) =
      .ok ((if growStart then before else []) ++ content ++ (if growStop then after else [])) := by
  cases growStart with
  | false =>
      cases growStop with
      | false =>
          rw [if_neg Bool.false_ne_true, if_neg Bool.false_ne_true, byteRange_between]
          exact congrArg Except.ok (List.append_nil content).symm
      | true =>
          have kept := byteRange_between before (content ++ after) []
          rw [List.append_nil, ← byteCount_append] at kept
          exact kept
  | true =>
      cases growStop with
      | false =>
          have kept := byteRange_between [] (before ++ content) after
          rw [List.nil_append, List.append_assoc, byteCount_append] at kept
          simp only [if_true, Bool.false_eq_true, if_false, List.append_nil]
          rw [← kept]
          exact congrArg (byteRange _ 0) (Nat.zero_add _).symm
      | true =>
          have kept := byteRange_between [] (before ++ (content ++ after)) []
          rw [List.nil_append, List.append_nil] at kept
          simp only [if_true, List.append_assoc]
          rw [← kept]
          exact congrArg (byteRange _ 0) (Nat.zero_add _).symm

variable (measured : Rope.Measured rope)
include measured

/-- **Widening a change once is safe**, and it is widened unless it is aligned. -/
theorem widenOnce_eq {change : Change} (inside : change.start ≤ rope.length) :
    widenOnce rope change =
      .ok (if rope.isAligned change then none else some (rope.widen change)) := by
  have before := clusterBefore_eq measured inside
  have after := clusterFrom_eq measured change.stop
  have start : joinsAt (rope.clusterBefore change.start)
      (rope.clusterBefore change.start ++ (change.content ++ rope.clusterFrom change.stop))
      (byteCount (rope.clusterBefore change.start)) = .ok (rope.joinsBefore change) :=
    joinsAt_eq _ _ _
  have stop : joinsAt (rope.clusterFrom change.stop)
      (rope.clusterBefore change.start ++ (change.content ++ rope.clusterFrom change.stop))
      (byteCount (rope.clusterBefore change.start) + byteCount change.content) =
        .ok (rope.joinsAfter change) := by
    rw [← byteCount_append, ← List.append_assoc]
    exact joinsAt_eq _ _ _
  have content := byteRange_drawn (rope.clusterBefore change.start) change.content
    (rope.clusterFrom change.stop) (rope.joinsBefore change) (rope.joinsAfter change)
  have first :
      sub change.start (rope.joinsBefore change).toNat = .ok (rope.widen change).start := by
    rw [Rope.start_widen]
    cases joins : rope.joinsBefore change with
    | false => exact sub_of_le (Nat.zero_le _)
    | true => exact sub_of_le (Rope.start_pos_of_joinsBefore joins)
  have last : change.stop + (rope.joinsAfter change).toNat = (rope.widen change).stop := by
    rw [Rope.stop_widen]
    cases rope.joinsAfter change with
    | false => rfl
    | true => rfl
  simp only [widenOnce, before, after, start, stop, ok_bind, first, last, content]
  rw [Rope.isAligned]
  by_cases aligned : (!rope.joinsBefore change && !rope.joinsAfter change) = true
  · rw [if_pos aligned, if_pos aligned]
    rfl
  · rw [if_neg aligned, if_neg aligned]
    rfl

/-- **Widening is safe**, and ends with the change that is aligned. -/
theorem alignFrom_eq (change : Change) (inside : change.start ≤ rope.length) (grown : Bool) :
    alignFrom rope change grown =
      .ok (if rope.isAligned change then (if grown then some change else none)
        else some (rope.align change)) := by
  -- Both loops take the same rounds, so the induction is that of the unguarded one.
  induction change using Rope.align.induct rope generalizing grown with
  | case1 change aligned =>
      have once := widenOnce_eq measured inside
      rw [if_pos aligned] at once ⊢
      rw [alignFrom]
      split
      · next failed => rw [once] at failed; cases failed
      · rfl
      · next found => rw [once] at found; cases found
  | case2 change unaligned ih =>
      have once := widenOnce_eq measured inside
      have wider := ih (Nat.le_trans (rope.start_widen_le change) inside) true
      rw [if_neg unaligned] at once ⊢
      rw [alignFrom]
      split
      · next failed => rw [once] at failed; cases failed
      · next stuck => rw [once] at stuck; cases stuck
      · next found =>
          rw [once] at found
          cases found
          rw [wider, Rope.align.eq_1 rope change, if_neg unaligned]
          by_cases aligned : rope.isAligned (rope.widen change) = true
          · rw [if_pos aligned, if_pos rfl, rope.align_of_isAligned aligned]
          · rw [if_neg aligned]

/-- A change is aligned without a fault. -/
theorem align_eq {change : Change} (inside : change.start ≤ rope.length) :
    align rope change = .ok (rope.widened? change) :=
  alignFrom_eq measured change inside false

end Aligning

section Edits

/-- The parts of a window are cut and placed without a fault. -/
theorem withWindow_eq (geometry : Geometry) (left : Tree GraphemeChunk)
    (parts : List GraphemeChunk) (right : Tree GraphemeChunk) :
    withWindow geometry left parts right = .ok (Rope.withWindow geometry left parts right) := by
  rw [withWindow, LawfulAccess.rechunk_eq, ok_bind, Rope.withWindow]
  split
  · next kept => simp only [kept, if_true]; rfl
  · next spilled => simp only [spilled]; rfl

/-- **Aligned changes are safe** wherever they lie in the rope. -/
theorem splice_eq {change : Change} (ordered : change.start ≤ change.stop) :
    splice rope change = .ok (rope.splice change) := by
  have place := rope.placement_spec change.start change.stop
  have width : rope.windowStop = rope.windowStart + Chunk.length rope.window := rfl
  rw [splice, Rope.splice]
  -- Each placement bounds the very differences that are taken in its case.
  cases placed : rope.placement change.start change.stop with
  | inWindow =>
      rw [placed] at place
      obtain ⟨first, last⟩ := place
      have head : change.start - rope.windowStart ≤ Chunk.length rope.window := by omega
      have tail : change.stop - rope.windowStart ≤ Chunk.length rope.window := by omega
      have second := Nat.le_trans first ordered
      simp only [sub_of_le first, sub_of_le second, slice_front head, slice_rear tail, ok_bind,
        withWindow_eq]
  | afterWindow =>
      rw [placed] at place
      have second := Nat.le_trans place ordered
      simp only [sub_of_le place, sub_of_le second, replaceTree_eq, ok_bind]
      rfl
  | beforeWindow => simp only [takeTree_eq, dropTree_eq, ok_bind, withWindow_eq]
  | acrossWindow =>
      rw [placed] at place
      obtain ⟨before, after, _⟩ := place
      have head : change.start - rope.windowStart ≤ Chunk.length rope.window := by omega
      have passed : rope.windowStop ≤ max change.stop rope.windowStop := Nat.le_max_right _ _
      simp only [takeTree_eq, dropTree_eq, sub_of_le passed, slice_front head, ok_bind]
      split
      · next within =>
          have tail : change.stop - rope.windowStart ≤ Chunk.length rope.window := by omega
          simp only [sub_of_le (Nat.le_of_lt after), slice_rear tail, ok_bind, withWindow_eq]
      · simp only [withWindow_eq]

variable {geometry : Geometry} {history : List Edit}
  (reached : Rope.Reachable geometry history rope)
include reached

/-- A change is widened to one that can be made. -/
theorem align_and_splice (change : Change) (ordered : change.start ≤ change.stop)
    (inside : change.stop ≤ rope.length) :
    align rope change = .ok (rope.widened? change) ∧
      splice rope (rope.align change) = .ok (rope.splice (rope.align change)) := by
  have measured := reached.measured
  refine ⟨align_eq measured (Nat.le_trans ordered inside), splice_eq ?_⟩
  rw [measured.length_eq] at inside
  exact (Rope.align_spec measured reached.segmented ordered inside).1

omit reached in
/-- Appended text is split into its pieces, or is one empty chunk if there are none. -/
theorem appendedChunks_eq (rope : Rope) (content : Text) :
    rope.appendedChunks content =
      if (GraphemeChunk.split content rope.geometry.leafLength).isEmpty then [Chunk.empty]
      else GraphemeChunk.split content rope.geometry.leafLength := by
  unfold Rope.appendedChunks
  cases GraphemeChunk.split content rope.geometry.leafLength with
  | nil => rfl
  | cons first rest => rfl

theorem append_eq (content : Text) : append rope content = .ok (rope.append content) := by
  obtain ⟨aligned, spliced⟩ :=
    align_and_splice reached ⟨rope.length, rope.length, content⟩ (Nat.le_refl _) (Nat.le_refl _)
  rw [append, Rope.append, aligned, ok_bind]
  by_cases still : rope.isAligned ⟨rope.length, rope.length, content⟩ = true
  · simp only [rope.widened?_of_isAligned still, split_eq, ok_bind, ← appendedChunks_eq]
    split
    · rfl
    · rfl
  · rw [rope.widened?_of_not_isAligned still]
    exact spliced

/-- An aligned insertion never faults. -/
theorem spliceInsertion_eq (index : Nat) (content : Text) :
    spliceInsertion rope index content = .ok (rope.spliceInsertion index content) := by
  have place := rope.placement_spec index index
  have width : rope.windowStop = rope.windowStart + Chunk.length rope.window := rfl
  obtain ⟨rfl, left, right, _⟩ := reached.shaped
  rw [spliceInsertion, Rope.spliceInsertion]
  cases placed : rope.placement index index with
  | inWindow =>
      rw [placed] at place
      have offset : index - rope.windowStart ≤ Chunk.length rope.window := by omega
      simp only [sub_of_le place.1, slice_front offset, slice_rear offset, withWindow_eq, ok_bind,
        Rope.splice, placed]
      rfl
  | afterWindow =>
      rw [placed] at place
      simp only [sub_of_le place,
        insertTree_eq right.wellFormed.counted right.wellFormed.grounded, ok_bind]
      cases rope.right.insert rope.geometry (index - rope.windowStop)
        (GraphemeChunk.ofText content) with
      | error error => rfl
      | ok right => rfl
  | beforeWindow =>
      simp only [insertTree_eq left.wellFormed.counted left.wellFormed.grounded, ok_bind]
      cases rope.left.insert rope.geometry index (GraphemeChunk.ofText content) with
      | error error => rfl
      | ok left => rfl
  | acrossWindow =>
      rw [placed] at place
      omega

/-- An insertion never faults. -/
theorem insert_eq (index : Nat) (content : Text) :
    insert rope index content = .ok (rope.insert index content) := by
  rw [insert, Rope.insert]
  by_cases outside : rope.length < index
  · rw [if_pos outside, if_pos outside]
  · rw [if_neg outside, if_neg outside]
    by_cases vacant : content.isEmpty = true
    · rw [if_pos vacant, if_pos vacant]
    · obtain ⟨aligned, spliced⟩ := align_and_splice reached ⟨index, index, content⟩
        (Nat.le_refl _) (Nat.le_of_not_lt outside)
      rw [if_neg vacant, if_neg vacant, aligned, ok_bind]
      by_cases still : rope.isAligned ⟨index, index, content⟩ = true
      · rw [rope.widened?_of_isAligned still]
        exact spliceInsertion_eq reached index content
      · rw [rope.widened?_of_not_isAligned still]
        simp only [spliced]
        rfl

theorem replace_eq (start stop : Nat) (content : Text) :
    replace rope start stop content = .ok (rope.replace start stop content) := by
  rw [replace, Rope.replace]
  by_cases outside : (decide (stop < start) || decide (rope.length < stop)) = true
  · rw [if_pos outside, if_pos outside]
  · rw [if_neg outside, if_neg outside]
    simp only [Bool.or_eq_true, decide_eq_true_eq, not_or, Nat.not_lt] at outside
    by_cases nothing : (decide (start = stop) && content.isEmpty) = true
    · rw [if_pos nothing, if_pos nothing]
    · obtain ⟨aligned, spliced⟩ :=
        align_and_splice reached ⟨start, stop, content⟩ outside.1 outside.2
      rw [if_neg nothing, if_neg nothing]
      simp only [aligned, ok_bind, rope.getD_widened?, spliced]
      rfl

/-- **Edits are safe**, whatever their positions and contents. -/
theorem apply_eq (edit : Edit) : apply rope edit = .ok (edit.apply rope) := by
  cases edit with
  | append content =>
      rw [apply, append_eq reached]
      rfl
  | insert index content => exact insert_eq reached index content
  | replace start stop content => exact replace_eq reached start stop content
  | remove start stop => exact replace_eq reached start stop []

end Edits
end Guarded
end GraphemeRope
