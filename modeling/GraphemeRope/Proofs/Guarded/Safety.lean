import GraphemeRope.Proofs.Guarded.Rope
import GraphemeRope.Proofs.Guarded.View
import GraphemeRope.Proofs.Rope.Forest

/-! # Reachable ropes are safe

Nothing that is done with a reachable rope, with its cursors or with its views meets a fault
(`GraphemeRope.Guarded.safe_of_reachable`). What is refused is an edit, a lookup or a cut at
positions that are not there, and a move past an end. -/

namespace GraphemeRope

namespace Rope

variable [CharacterTable] {rope : Rope}

/-- A cluster is refused exactly where there is none. -/
theorem Measured.refuses_iff (measured : Measured rope) (index : Nat) :
    (∃ error, rope.element index = .error error) ↔ rope.length ≤ index := by
  rw [measured.element_eq, measured.length_eq]
  by_cases inside : index < rope.elements.length
  · rw [dif_pos inside]
    refine ⟨?_, fun past => absurd inside (Nat.not_lt_of_le past)⟩
    rintro ⟨error, refused⟩
    cases refused
  · rw [dif_neg inside]
    exact ⟨fun _ => Nat.le_of_not_lt inside, fun _ => ⟨_, rfl⟩⟩

end Rope

namespace Guarded

section Cursors

variable [CharacterTable] {rope : Rope} (measured : Rope.Measured rope)
include measured

/-- A cursor is placed without a fault. -/
theorem cursorAt_eq (position : Nat) : cursorAt rope position = .ok (rope.cursorAt position) := by
  rw [cursorAt, Rope.cursorAt, Cursor.ofPosition, (readable measured.forest_counted).located]
  split
  · rfl
  · rfl

/-- **Consuming all clusters is safe**, from both ends and in any order. -/
theorem pulls_span (directions : List Direction) :
    pulls rope.span directions = .ok (drawn rope.elements directions) := by
  have counted := measured.forest_counted
  rw [rope.span_eq, pulls_between counted (Nat.zero_le _) (Nat.le_refl _),
    Cursor.length_forestElements counted, List.drop_zero, Nat.sub_zero, List.take_length,
    Rope.forestElements_forest]

end Cursors

/-- What holds of a view whose units can be taken, which can be cut between cursors, and whose
cursors can be moved and read, without a fault. -/
structure Legible (view : UnitView) : Prop where
  units : units view = .ok view.units
  pulls (directions : List Direction) :
    pulls view.span directions = .ok (drawn view.shown directions)
  sliceBetween (front back : Cursor UnitChunk) :
    sliceBetween view front back = .ok (view.sliceBetween front back)
  readable : Readable view.forest

/-- A sound view is legible. -/
theorem legible {view : UnitView} (sound : UnitView.Sound view) : Legible view where
  units := units_eq sound
  pulls := pulls_between sound.counted sound.ordered sound.inside
  sliceBetween := sliceBetween_eq view
  readable := readable sound.counted

/-- **Reachable ropes are safe.** Of every difference, slot, chunk and byte of a text that an edit,
a lookup, a cursor or a view asks for, none is missing, and chunks can be counted wherever that is
done. So each operation has its result, which is refused only for its positions. A cluster is
refused only past the end, and a cursor only moves past an end. A view that was cut out of the view
of the rope, any number of times, is as safe, and its units can be looked up where they can be
counted by an index. -/
theorem safe_of_reachable [CharacterTable] {geometry : Geometry} {history : List Edit} {rope : Rope}
    (reached : Rope.Reachable geometry history rope) :
    (∀ chunk : GraphemeChunk, Access.length chunk = .ok (Chunk.length chunk)) ∧
    (∀ edit, apply rope edit = .ok (edit.apply rope)) ∧
    (∀ index, element rope index = .ok (rope.element index) ∧
      ((∃ error, rope.element index = .error error) ↔ rope.length ≤ index)) ∧
    (∀ position, cursorAt rope position = .ok (rope.cursorAt position)) ∧
    (∀ directions, pulls rope.span directions = .ok (drawn rope.elements directions)) ∧
    Readable rope.forest ∧
    ∀ view, UnitView.CutFrom rope.unitView view →
      Legible view ∧
      ((Units.encode rope.text).length < 2 ^ Geometry.indexBits →
        ∀ index, unitAt view index = .ok (view.get index)) := by
  have measured := reached.measured
  refine ⟨LawfulAccess.length_eq, apply_eq reached,
    fun index => ⟨element_eq measured index, measured.refuses_iff index⟩, cursorAt_eq measured,
    pulls_span measured, readable measured.forest_counted, fun view within => ?_⟩
  have whole := Rope.sound_unitView rope
  obtain ⟨sound, forest_eq⟩ := within.sound whole
  refine ⟨legible sound, fun representable => unitAt_eq sound ?_⟩
  rw [forest_eq, Cursor.length_forestElements whole.counted, Rope.forestElements_unitView]
  exact representable

/-- A rope whose three regions are filled: a mark was appended, which joins the last cluster, and
then a character of two units. -/
theorem safe_after_appends :
    let rope := ((Rope.ofText .standard ['a', 'b']).append ['\u0301']).append ['😍']
    (rope.windowStart = 1 ∧ rope.windowStop = 2 ∧ rope.length = 3) ∧
      apply rope (.remove 0 2) = .ok ((Edit.remove 0 2).apply rope) ∧
      (∃ error, rope.element 3 = .error error) ∧
      unitAt rope.unitView 4 = .ok (rope.unitView.get 4) := by
  intro rope
  have reached : Rope.Reachable .standard [.append ['😍'], .append ['\u0301']] rope :=
    .edit (.edit (.ofText _ (by decide +kernel)) _ rfl (by decide +kernel)) _ rfl
      (by decide +kernel)
  obtain ⟨_, edits, elements, _, _, _, views⟩ := safe_of_reachable reached
  have length_eq : rope.length = 3 := by decide +kernel
  refine ⟨⟨by decide +kernel, by decide +kernel, length_eq⟩, edits _, ?_, ?_⟩
  · exact (elements 3).2.mpr (Nat.le_of_eq length_eq)
  · exact (views _ .whole).2 (by decide +kernel) 4

end Guarded
end GraphemeRope
