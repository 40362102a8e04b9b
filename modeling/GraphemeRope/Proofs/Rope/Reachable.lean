import GraphemeRope.Proofs.Tree.Region
import GraphemeRope.Script.Basic

/-! # Edits and reachable ropes

An edit asks for a change, which may be refused for its positions alone. What it does to a rope is
one of a few things (`GraphemeRope.Edit.Effect`), and every proof about edits goes through these
(`GraphemeRope.Edit.apply_spec`). A rope is reachable if it was made empty or of a text and then
edited any number of times.
-/

namespace GraphemeRope

/-- The text of some clusters after a change. -/
def Change.outcome (clusters : List Grapheme) (change : Change) : Text :=
  (clusters.take change.start).flatten ++ change.content ++ (clusters.drop change.stop).flatten

/-- The replacement of a range by a text, refused unless the range is in order and within so many
clusters. -/
def Change.ofRange (length start stop : Nat) (content : Text) : Except RopeError Change :=
  if start ≤ stop ∧ stop ≤ length then .ok ⟨start, stop, content⟩
  else .error (.rangeOutOfBounds start stop length)

/-- A range that is granted is in order and inside. -/
theorem Change.bounds_of_ofRange {length start stop : Nat} {content : Text} {change : Change}
    (granted : Change.ofRange length start stop content = .ok change) :
    change.start ≤ change.stop ∧ change.stop ≤ length := by
  unfold Change.ofRange at granted
  split at granted
  · next inside =>
      cases granted
      exact inside
  · cases granted

namespace Edit

/-- The change that an edit asks for in so many clusters. Positions past the end and ranges that end
before they start are refused. -/
def change (length : Nat) : Edit → Except RopeError Change
  | .append content => .ok ⟨length, length, content⟩
  | .insert index content =>
      if index ≤ length then .ok ⟨index, index, content⟩
      else .error (.indexOutOfRange index length)
  | .replace start stop content => Change.ofRange length start stop content
  | .remove start stop => Change.ofRange length start stop []

/-- A change that is not refused replaces clusters that there are. -/
theorem bounds_of_change {length : Nat} {edit : Edit} {change : Change}
    (granted : edit.change length = .ok change) :
    change.start ≤ change.stop ∧ change.stop ≤ length := by
  cases edit with
  | append content =>
      cases granted
      exact ⟨Nat.le_refl _, Nat.le_refl _⟩
  | insert index content =>
      rw [Edit.change] at granted
      split at granted
      · next inside =>
          cases granted
          exact ⟨Nat.le_refl _, inside⟩
      · cases granted
  | replace start stop content => exact Change.bounds_of_ofRange granted
  | remove start stop => exact Change.bounds_of_ofRange granted

variable [CharacterTable]

/-- What an edit may do to a rope to make a change of it. -/
inductive Effect (rope : Rope) (edit : Edit) (change : Change) : Rope → Prop where
  | unchanged (nowhere : change.start = change.stop) (vacant : change.content = []) :
      Effect rope edit change rope
  | spliced : Effect rope edit change (rope.splice (rope.align change))
  | pushedLeft (appended : edit = .append change.content)
      (aligned : rope.isAligned change = true)
      (atEnd : change.start = rope.length ∧ change.stop = rope.length)
      (clear : Chunk.isEmpty rope.window = true ∧ rope.right.isEmpty = true) :
      Effect rope edit change
        { rope with
          left := rope.left.pushAll rope.geometry (rope.appendedChunks change.content) }
  | pushedRight (appended : edit = .append change.content)
      (aligned : rope.isAligned change = true)
      (atEnd : change.start = rope.length ∧ change.stop = rope.length) :
      Effect rope edit change
        { rope with
          right := rope.right.pushAll rope.geometry (rope.appendedChunks change.content) }
  | insertedLeft (aligned : rope.isAligned change = true) (filled : change.content ≠ [])
      (between : change.start = change.stop) (inside : change.start ≤ rope.left.length) :
      Effect rope edit change
        { rope with
          left := Tree.ofSiblings rope.geometry (rope.left.inserted rope.geometry
            (GraphemeChunk.ofText change.content) change.start) }
  | insertedRight (aligned : rope.isAligned change = true) (filled : change.content ≠ [])
      (between : change.start = change.stop) (beyond : rope.windowStop ≤ change.start)
      (inside : change.start - rope.windowStop ≤ rope.right.length) :
      Effect rope edit change
        { rope with
          right := Tree.ofSiblings rope.geometry (rope.right.inserted rope.geometry
            (GraphemeChunk.ofText change.content) (change.start - rope.windowStop)) }

end Edit

section Spec

variable [CharacterTable] (rope : Rope)

namespace Rope

/-- A range is placed in the window if it fits there, then behind it, then in front of it, and else
across. -/
theorem placement_eq (start stop : Nat) :
    rope.placement start stop =
      if rope.windowStart ≤ start ∧ stop ≤ rope.windowStop then .inWindow
      else if rope.windowStop ≤ start then .afterWindow
      else if stop ≤ rope.windowStart then .beforeWindow
      else .acrossWindow := by
  simp only [placement, Bool.and_eq_true, decide_eq_true_eq]

/-- What the placement of a range says of its ends. -/
theorem placement_spec (start stop : Nat) :
    match rope.placement start stop with
    | .inWindow => rope.windowStart ≤ start ∧ stop ≤ rope.windowStop
    | .afterWindow => rope.windowStop ≤ start
    | .beforeWindow => stop ≤ rope.windowStart
    | .acrossWindow =>
        start < rope.windowStop ∧ rope.windowStart < stop ∧
          ¬(rope.windowStart ≤ start ∧ stop ≤ rope.windowStop) := by
  rw [placement_eq]
  by_cases inside : rope.windowStart ≤ start ∧ stop ≤ rope.windowStop
  · rw [if_pos inside]
    exact inside
  · rw [if_neg inside]
    by_cases after : rope.windowStop ≤ start
    · rw [if_pos after]
      exact after
    · rw [if_neg after]
      by_cases before : stop ≤ rope.windowStart
      · rw [if_pos before]
        exact before
      · rw [if_neg before]
        exact ⟨Nat.lt_of_not_le after, Nat.lt_of_not_le before, inside⟩

/-- A range is placed in the window exactly if it lies there. -/
theorem placement_eq_inWindow_iff {start stop : Nat} :
    rope.placement start stop = .inWindow ↔ rope.windowStart ≤ start ∧ stop ≤ rope.windowStop := by
  refine ⟨fun placed => ?_, fun inside => (rope.placement_eq start stop).trans (if_pos inside)⟩
  have place := rope.placement_spec start stop
  rw [placed] at place
  exact place

/-- An aligned change need not be widened. -/
theorem align_of_isAligned {change : Change} (aligned : rope.isAligned change = true) :
    rope.align change = change := by
  rw [align, if_pos aligned]

/-- An aligned change is not widened. -/
theorem widened?_of_isAligned {change : Change} (aligned : rope.isAligned change = true) :
    rope.widened? change = none := if_pos aligned

/-- A change that is not aligned is widened to one that is. -/
theorem widened?_of_not_isAligned {change : Change} (unaligned : ¬rope.isAligned change = true) :
    rope.widened? change = some (rope.align change) := if_neg unaligned

/-- Widened or not, a change is carried out as it is aligned. -/
theorem getD_widened? (change : Change) :
    (rope.widened? change).getD change = rope.align change := by
  by_cases aligned : rope.isAligned change = true
  · rw [rope.widened?_of_isAligned aligned, rope.align_of_isAligned aligned, Option.getD_none]
  · rw [rope.widened?_of_not_isAligned aligned, Option.getD_some]

variable {rope} in
/-- What an insertion of some text makes of a rope, if it need not be widened. -/
theorem insert_of_isAligned {index : Nat} (inside : index ≤ rope.length) {content : Text}
    (filled : content ≠ []) (aligned : rope.isAligned ⟨index, index, content⟩ = true) :
    rope.insert index content = rope.spliceInsertion index content := by
  rw [insert, if_neg (Nat.not_lt_of_le inside),
    if_neg fun empty => filled (List.isEmpty_iff.mp empty), rope.widened?_of_isAligned aligned]

variable {rope} in
/-- An insertion that must be widened is a splice. -/
theorem insert_of_not_isAligned {index : Nat} (inside : index ≤ rope.length) {content : Text}
    (filled : content ≠ []) (unaligned : ¬rope.isAligned ⟨index, index, content⟩ = true) :
    rope.insert index content = .ok (rope.splice (rope.align ⟨index, index, content⟩)) := by
  rw [insert, if_neg (Nat.not_lt_of_le inside),
    if_neg fun empty => filled (List.isEmpty_iff.mp empty),
    rope.widened?_of_not_isAligned unaligned]

variable {rope} in
/-- Before the window, an aligned insertion goes into the left tree. -/
theorem insert_of_lt_windowStart {index : Nat} {content : Text}
    (before : index < rope.windowStart) (filled : content ≠ [])
    (aligned : rope.isAligned ⟨index, index, content⟩ = true) :
    rope.insert index content = .ok { rope with
      left := Tree.ofSiblings rope.geometry
        (rope.left.inserted rope.geometry (GraphemeChunk.ofText content) index) } := by
  have shorter : rope.windowStart ≤ rope.windowStop := Nat.le_add_right _ _
  have longer : rope.windowStop ≤ rope.length := Nat.le_add_right _ _
  have present : ¬Chunk.isEmpty (GraphemeChunk.ofText content) = true :=
    fun empty => filled (GraphemeChunk.isEmpty_ofText_iff.mp empty)
  have placed : rope.placement index index = .beforeWindow := by
    rw [placement_eq, if_neg (by omega), if_neg (by omega), if_pos (by omega)]
  rw [insert_of_isAligned (by omega) filled aligned]
  simp only [spliceInsertion, placed, Tree.insert_ok (Nat.le_of_lt before) present]
  rfl

variable {rope} in
/-- Behind the window, an aligned insertion goes into the right tree. -/
theorem insert_of_windowStop_lt {index : Nat} {content : Text} (behind : rope.windowStop < index)
    (inside : index ≤ rope.length) (filled : content ≠ [])
    (aligned : rope.isAligned ⟨index, index, content⟩ = true) :
    rope.insert index content = .ok { rope with
      right := Tree.ofSiblings rope.geometry (rope.right.inserted rope.geometry
        (GraphemeChunk.ofText content) (index - rope.windowStop)) } := by
  have whole : rope.length = rope.windowStop + rope.right.length := rfl
  have present : ¬Chunk.isEmpty (GraphemeChunk.ofText content) = true :=
    fun empty => filled (GraphemeChunk.isEmpty_ofText_iff.mp empty)
  have within : index - rope.windowStop ≤ rope.right.length := by omega
  have placed : rope.placement index index = .afterWindow := by
    rw [placement_eq, if_neg (by omega), if_pos (by omega)]
  rw [insert_of_isAligned inside filled aligned]
  simp only [spliceInsertion, placed, Tree.insert_ok within present]
  rfl

/-- What a replacement makes of a rope. -/
theorem replace_eq (start stop : Nat) (content : Text) :
    rope.replace start stop content =
      (Change.ofRange rope.length start stop content).map fun change =>
        if change.start = change.stop ∧ change.content = [] then rope
        else rope.splice (rope.align change) := by
  by_cases inside : start ≤ stop ∧ stop ≤ rope.length
  · have accepted : ¬(decide (stop < start) || decide (rope.length < stop)) = true := by
      simp only [Bool.or_eq_true, decide_eq_true_eq]
      omega
    rw [replace, if_neg accepted, Change.ofRange, if_pos inside]
    simp only [Bool.and_eq_true, decide_eq_true_eq, List.isEmpty_iff, rope.getD_widened?]
    exact (apply_ite Except.ok _ _ _).symm
  · have refused : (decide (stop < start) || decide (rope.length < stop)) = true := by
      simp only [Bool.or_eq_true, decide_eq_true_eq]
      omega
    rw [replace, if_pos refused, Change.ofRange, if_neg inside]
    rfl

end Rope

namespace Edit

/-- An insertion inside the rope is carried out, with the effect of its change. -/
theorem exists_insertion (edit : Edit) {index : Nat} (inside : index ≤ rope.length)
    (content : Text) : ∃ changed, rope.insert index content = .ok changed ∧
      Effect rope edit ⟨index, index, content⟩ changed := by
  by_cases vacant : content = []
  · rw [Rope.insert, if_neg (Nat.not_lt_of_le inside), if_pos (List.isEmpty_iff.mpr vacant)]
    exact ⟨rope, rfl, .unchanged rfl vacant⟩
  · by_cases aligned : rope.isAligned ⟨index, index, content⟩ = true
    · have filled : ¬Chunk.isEmpty (GraphemeChunk.ofText content) = true :=
        fun empty => vacant (GraphemeChunk.isEmpty_ofText_iff.mp empty)
      have place := rope.placement_spec index index
      rw [Rope.insert_of_isAligned inside vacant aligned]
      simp only [Rope.spliceInsertion]
      cases placed : rope.placement index index with
      | inWindow =>
          have effect : Effect rope edit ⟨index, index, content⟩
              (rope.splice (rope.align ⟨index, index, content⟩)) := .spliced
          rw [rope.align_of_isAligned aligned] at effect
          exact ⟨_, rfl, effect⟩
      | afterWindow =>
          rw [placed] at place
          have within : index - rope.windowStop ≤ rope.right.length := by
            unfold Rope.length at inside
            omega
          simp only [Tree.insert_ok within filled]
          exact ⟨_, rfl, .insertedRight aligned vacant rfl place within⟩
      | beforeWindow =>
          rw [placed] at place
          simp only [Tree.insert_ok place filled]
          exact ⟨_, rfl, .insertedLeft aligned vacant rfl place⟩
      | acrossWindow =>
          rw [placed] at place
          omega
    · exact ⟨_, Rope.insert_of_not_isAligned inside vacant aligned, .spliced⟩

/-- A replacement is refused exactly if its range is. -/
theorem replace_spec (edit : Edit) (start stop : Nat) (content : Text) :
    match Change.ofRange rope.length start stop content with
    | .error error => rope.replace start stop content = .error error
    | .ok change =>
        ∃ changed, rope.replace start stop content = .ok changed ∧
          Effect rope edit change changed := by
  rw [rope.replace_eq]
  cases Change.ofRange rope.length start stop content with
  | error error => rfl
  | ok change =>
      by_cases nothing : change.start = change.stop ∧ change.content = []
      · exact ⟨rope, congrArg Except.ok (if_pos nothing), .unchanged nothing.1 nothing.2⟩
      · exact ⟨_, congrArg Except.ok (if_neg nothing), .spliced⟩

/-- **What an edit does.** An edit is refused exactly if its change is, with the same error, and
otherwise has one of the effects that make the change. -/
theorem apply_spec (edit : Edit) :
    match edit.change rope.length with
    | .error error => edit.apply rope = .error error
    | .ok change => ∃ changed, edit.apply rope = .ok changed ∧ Effect rope edit change changed := by
  cases edit with
  | append content =>
      refine ⟨rope.append content, rfl, ?_⟩
      rw [Rope.append]
      by_cases aligned : rope.isAligned ⟨rope.length, rope.length, content⟩ = true
      · simp only [rope.widened?_of_isAligned aligned]
        split
        · next clear =>
            rw [Bool.and_eq_true] at clear
            exact .pushedLeft rfl aligned ⟨rfl, rfl⟩ clear
        · exact .pushedRight rfl aligned ⟨rfl, rfl⟩
      · rw [rope.widened?_of_not_isAligned aligned]
        exact .spliced
  | insert index content =>
      by_cases inside : index ≤ rope.length
      · simp only [Edit.change, if_pos inside]
        exact exists_insertion rope _ inside content
      · simp only [Edit.change, if_neg inside]
        exact if_pos (Nat.lt_of_not_le inside)
  | replace start stop content => exact replace_spec rope _ start stop content
  | remove start stop => exact replace_spec rope _ start stop []

variable {rope}

/-- An edit that is not refused has an effect. -/
theorem effect_of_apply {edit : Edit} {changed : Rope} (applied : edit.apply rope = .ok changed) :
    ∃ change, edit.change rope.length = .ok change ∧ Effect rope edit change changed := by
  have spec := apply_spec rope edit
  cases granted : edit.change rope.length with
  | error error =>
      rw [granted] at spec
      rw [applied] at spec
      cases spec
  | ok change =>
      rw [granted] at spec
      obtain ⟨other, same, effect⟩ := spec
      rw [applied] at same
      cases same
      exact ⟨change, rfl, effect⟩

end Edit
end Spec

/-- The ropes that edits lead to, each with its edits, the latest first. Lengths are kept in as many
bits as indices, so there is no rope with a greater length. -/
inductive Rope.Reachable [CharacterTable] (geometry : Geometry) : List Edit → Rope → Prop where
  | empty : Reachable geometry [] (Rope.empty geometry)
  | ofText (text : Text)
      (representable : (Rope.ofText geometry text).length < 2 ^ Geometry.indexBits) :
      Reachable geometry [] (Rope.ofText geometry text)
  | edit {history : List Edit} {rope changed : Rope} (reached : Reachable geometry history rope)
      (edit : Edit) (applied : edit.apply rope = .ok changed)
      (representable : changed.length < 2 ^ Geometry.indexBits) :
      Reachable geometry (edit :: history) changed

end GraphemeRope
