import GraphemeRope.Proofs.Cluster.Count
import GraphemeRope.Proofs.Rope.Coherence
import GraphemeRope.Proofs.Rope.Forest
import Mathlib.Data.List.Flatten

/-! # Edits of a text

An edit can be applied to a text alone, with positions that count its clusters. An edit of a
reachable rope is refused exactly if the edit of its text is, and otherwise leads to a rope of the
edited text (`GraphemeRope.Rope.Holds.simulates`), so that nothing of the layout of a rope is
seen in what becomes of its text. The same goes for a row of edits
(`GraphemeRope.Rope.Holds.simulatesAll`), if lengths stay within the width of an index. -/

namespace GraphemeRope

section Definitions

variable [CharacterTable]

/-- The text after an edit whose positions count its clusters, or why the edit is refused. -/
def Edit.applyToText (text : Text) (edit : Edit) : Except RopeError Text :=
  (edit.change (Cluster.segment text).length).map (Change.outcome (Cluster.segment text))

/-- The text after a row of edits, or the first edit that is refused and why. -/
def Edit.applyAllToText (text : Text) : List Edit → Except (Edit × RopeError) Text
  | [] => .ok text
  | edit :: rest =>
      match edit.applyToText text with
      | .ok next => applyAllToText next rest
      | .error error => .error (edit, error)

/-- The text that an edit puts in. -/
def Edit.content : Edit → Text
  | .append content => content
  | .insert _ content => content
  | .replace _ _ content => content
  | .remove _ _ => []

/-- The number of characters that a row of edits puts in. -/
def Edit.contentLength (edits : List Edit) : Nat := total (edits.map (·.content.length))

/-- Whether a rope holds a text by its clusters, in trees of good shape. -/
structure Rope.Holds (geometry : Geometry) (text : Text) (rope : Rope) : Prop where
  shaped : Rope.Shaped geometry 0 rope
  elements_eq : rope.elements = Cluster.segment text

end Definitions

namespace Change

/-- A change of a range has the content that it was asked for with. -/
theorem content_of_ofRange {length start stop : Nat} {content : Text} {change : Change}
    (granted : Change.ofRange length start stop content = .ok change) :
    change.content = content := by
  unfold Change.ofRange at granted
  split at granted
  · cases granted
    rfl
  · cases granted

/-- A change of clusters adds no more characters than its content has. -/
theorem length_outcome_le (clusters : List Grapheme) {change : Change}
    (ordered : change.start ≤ change.stop) :
    (change.outcome clusters).length ≤ clusters.flatten.length + change.content.length := by
  have kept := congrArg (·.flatten.length) (List.take_append_drop change.start clusters)
  have fewer : (clusters.drop change.stop).flatten.length ≤
      (clusters.drop change.start).flatten.length :=
    (List.drop_sublist_drop_left clusters ordered).flatten.length_le
  simp only [List.flatten_append, List.length_append] at kept
  rw [outcome, List.length_append, List.length_append]
  omega

end Change

namespace Edit

/-- The change of an edit has the content of the edit. -/
theorem content_of_change {length : Nat} {edit : Edit} {change : Change}
    (granted : edit.change length = .ok change) : change.content = edit.content := by
  cases edit with
  | append content =>
      cases granted
      rfl
  | insert index content =>
      rw [Edit.change] at granted
      split at granted
      · cases granted
        rfl
      · cases granted
  | replace start stop content => exact Change.content_of_ofRange granted
  | remove start stop => exact Change.content_of_ofRange granted

variable [CharacterTable] {text : Text}

/-- An edit adds no more characters to a text than it puts in. -/
theorem length_applyToText_le {edit : Edit} {next : Text}
    (applied : edit.applyToText text = .ok next) :
    next.length ≤ text.length + edit.content.length := by
  unfold applyToText at applied
  cases granted : edit.change (Cluster.segment text).length with
  | error error =>
      rw [granted] at applied
      cases applied
  | ok change =>
      rw [granted] at applied
      cases applied
      have longer := Change.length_outcome_le (Cluster.segment text) (bounds_of_change granted).1
      rw [content_of_change granted, Cluster.flatten_segment] at longer
      exact longer

/-- An insertion at the start puts its content in front of the text. -/
theorem applyToText_insert_zero (text content : Text) :
    (Edit.insert 0 content).applyToText text = .ok (content ++ text) := by
  have outcome : Change.outcome (Cluster.segment text) ⟨0, 0, content⟩ = content ++ text := by
    rw [Change.outcome, List.take_zero, List.drop_zero, Cluster.flatten_segment]
    rfl
  rw [← outcome]
  rfl

/-- An edit that is refused hides all edits after it. -/
theorem applyAllToText_of_refused {before : List Edit} {reached : Text} {refused : Edit}
    {error : RopeError} (made : applyAllToText text before = .ok reached)
    (fails : refused.applyToText reached = .error error) (after : List Edit) :
    applyAllToText text (before ++ refused :: after) = .error (refused, error) := by
  induction before generalizing text with
  | nil =>
      cases made
      rw [List.nil_append, applyAllToText, fails]
  | cons edit before ih =>
      rw [applyAllToText] at made
      rw [List.cons_append, applyAllToText]
      cases applied : edit.applyToText text with
      | error error =>
          rw [applied] at made
          cases made
      | ok next =>
          rw [applied] at made
          exact ih made

end Edit

namespace Rope

variable [CharacterTable] {geometry : Geometry} {text : Text} {rope : Rope}

theorem holds_ofText (geometry : Geometry) (text : Text) :
    Holds geometry text (ofText geometry text) :=
  ⟨shaped_ofText (Nat.zero_le 1) text, elements_ofText geometry text⟩

namespace Holds

theorem text_eq (holds : Holds geometry text rope) : rope.text = text := by
  rw [text_eq_flatten, holds.elements_eq, Cluster.flatten_segment]

/-- A rope is as long as the text that it holds has clusters. -/
theorem length_eq (holds : Holds geometry text rope) :
    rope.length = (Cluster.segment text).length := by
  rw [length_eq_of_counted holds.shaped.forest_counted, holds.elements_eq]

/-- The clusters of a rope that holds a text are segmented. -/
theorem segmented (holds : Holds geometry text rope) : Cluster.Segmented rope.elements := by
  rw [holds.elements_eq]
  exact Cluster.segmented_segment text

/-- **Edits of a rope and of its text.** An edit of a rope that holds a text does to it what the
edit does to the text. -/
theorem simulates (holds : Holds geometry text rope)
    (representable : rope.length < 2 ^ Geometry.indexBits) (edit : Edit) :
    match edit.applyToText text with
    | .error error => edit.apply rope = .error error
    | .ok next => ∃ changed, edit.apply rope = .ok changed ∧ Holds geometry next changed := by
  have measured := holds.shaped.measured representable
  have spec := Edit.apply_spec rope edit
  rw [measured.length_eq, holds.elements_eq] at spec
  unfold Edit.applyToText
  cases granted : edit.change (Cluster.segment text).length with
  | error error =>
      rw [granted] at spec
      exact spec
  | ok change =>
      rw [granted] at spec
      obtain ⟨changed, applied, effect⟩ := spec
      obtain ⟨ordered, inside⟩ := Edit.bounds_of_change granted
      rw [← holds.elements_eq] at inside
      obtain ⟨kept, outcome⟩ :=
        segmented_of_effect measured holds.segmented ordered inside effect
      rw [holds.elements_eq] at outcome
      refine ⟨changed, applied, holds.shaped.of_effect (Nat.zero_le 1) effect fun _ => rfl, ?_⟩
      rw [← outcome, kept]

/-- **Rows of edits.** A row of edits of a rope that holds a text does to it what the edits do to
the text. An edit that is refused ends both, with one refusal. -/
theorem simulatesAll (holds : Holds geometry text rope) {edits : List Edit}
    (representable : text.length + Edit.contentLength edits < 2 ^ Geometry.indexBits) :
    match Edit.applyAllToText text edits with
    | .error refusal => Edit.applyAll rope edits = .error refusal
    | .ok final =>
        ∃ changed, Edit.applyAll rope edits = .ok changed ∧ Holds geometry final changed := by
  induction edits generalizing text rope with
  | nil => exact ⟨rope, rfl, holds⟩
  | cons edit rest ih =>
      have shorter := Cluster.length_segment_le text
      rw [Edit.contentLength, List.map_cons, total, ← Edit.contentLength] at representable
      have step := holds.simulates (by rw [holds.length_eq]; omega) edit
      rw [Edit.applyAllToText, Edit.applyAll]
      cases applied : edit.applyToText text with
      | error error =>
          rw [applied] at step
          simp only [step]
      | ok next =>
          rw [applied] at step
          obtain ⟨changed, made, held⟩ := step
          have longer := Edit.length_applyToText_le applied
          simp only [made]
          exact ih held (by omega)

end Holds

theorem Reachable.holds {history : List Edit} (reached : Reachable geometry history rope) :
    Holds geometry rope.text rope :=
  ⟨reached.shaped.weaken (Nat.zero_le _), (segment_text reached).symm⟩

end Rope
end GraphemeRope
