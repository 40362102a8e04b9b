import GraphemeRope.Proofs.Cursor.Span
import GraphemeRope.Proofs.Rope.Coherence
import GraphemeRope.Proofs.Tree.Lookup
import GraphemeRope.Proofs.Tree.Map
import GraphemeRope.Proofs.Units
import GraphemeRope.UnitView
import Mathlib.Data.List.Forall2

/-! # What views show

A view shows a run of the units that its trees hold, whether it is read by positions, from the front
or from the back, and so does every view cut out of it (`GraphemeRope.UnitView.Sound`). The trees of
the view of a rope hold the units of its text, in trees that mirror those of the rope
(`GraphemeRope.Rope.unitView_agrees`). -/

namespace GraphemeRope
namespace UnitView

/-- What holds of a view of a rope and of the views cut out of it. -/
structure Sound (view : UnitView) : Prop where
  made : ∀ tree ∈ view.forest, Tree.Made view.geometry tree
  ordered : view.start ≤ view.stop
  inside : view.stop ≤ forestLength view.forest

/-- Cutting by positions counts from the start of the view. -/
theorem slice_eq (view : UnitView) (first last : Nat) :
    view.slice first last =
      if first ≤ last ∧ last ≤ view.length then
        .ok { view with start := view.start + first, stop := view.start + last }
      else .error (.rangeOutOfBounds first last view.length) := by
  have refused : (last < first || view.length < last) = true ↔
      ¬(first ≤ last ∧ last ≤ view.length) := by
    simp only [Bool.or_eq_true, decide_eq_true_eq, not_and_or, Nat.not_le]
  by_cases fits : first ≤ last ∧ last ≤ view.length
  · rw [slice, if_neg fun refusal => refused.mp refusal fits, if_pos fits]
  · rw [slice, if_pos (refused.mpr fits), if_neg fits]

/-- Cutting by cursors counts from the first unit of the rope. -/
theorem sliceBetween_eq (view : UnitView) (front back : Cursor UnitChunk) :
    view.sliceBetween front back =
      if view.start ≤ front.position ∧ front.position ≤ back.position ∧
          back.position ≤ view.stop then
        .ok { view with start := front.position, stop := back.position }
      else .error (.rangeOutOfBounds (front.position - view.start) (back.position - view.start)
        view.length) := by
  have refused : (front.position < view.start || back.position < front.position ||
      view.stop < back.position) = true ↔
        ¬(view.start ≤ front.position ∧ front.position ≤ back.position ∧
          back.position ≤ view.stop) := by
    simp only [Bool.or_eq_true, decide_eq_true_eq, not_and_or, Nat.not_le, or_assoc]
  by_cases fits : view.start ≤ front.position ∧ front.position ≤ back.position ∧
      back.position ≤ view.stop
  · obtain ⟨after, ordered, before⟩ := fits
    rw [sliceBetween, if_neg fun refusal => refused.mp refusal ⟨after, ordered, before⟩,
      if_pos ⟨after, ordered, before⟩, slice_eq,
      if_pos ⟨Nat.sub_le_sub_right ordered _, Nat.sub_le_sub_right before _⟩,
      Nat.add_sub_cancel' after, Nat.add_sub_cancel' (Nat.le_trans after ordered)]
  · rw [sliceBetween, if_pos (refused.mpr fits), if_neg fits]

/-- The units that a view shows. -/
def shown (view : UnitView) : List UInt16 :=
  ((forestElements view.forest).drop view.start).take (view.stop - view.start)

namespace Sound

variable {view : UnitView} (sound : Sound view)
include sound

theorem counted : ∀ tree ∈ view.forest, Tree.Counted tree :=
  fun tree member => (sound.made tree member).counted

/-- The length of a sound view is the number of units that it shows. -/
theorem length_eq : view.length = view.shown.length := by
  have inside := sound.inside
  rw [Cursor.length_forestElements sound.counted] at inside
  rw [length, shown, List.length_take, List.length_drop]
  omega

/-- The span of a sound view yields what it shows. -/
theorem toList_span : view.span.toList = view.shown :=
  Span.toList_between sound.counted sound.ordered sound.inside

theorem toListBack_span : view.span.toListBack = view.shown.reverse :=
  Span.toListBack_between sound.counted sound.ordered sound.inside

/-- The units of a sound view are those that it shows. -/
theorem units_eq : view.units = view.shown := sound.toList_span

/-- Views are compared by what they show. -/
theorem beq_iff {other : UnitView} (another : Sound other) :
    (view == other) = true ↔ view.shown = other.shown := by
  have unfolded : (view == other) =
      (view.length == other.length && view.units == other.units) := rfl
  rw [unfolded, sound.length_eq, another.length_eq, sound.units_eq, another.units_eq,
    Bool.and_eq_true, beq_iff_eq, beq_iff_eq]
  exact ⟨fun same => same.2, fun same => ⟨congrArg List.length same, same⟩⟩

/-- A sound view equals a text exactly if it shows the units of the text. -/
theorem shows_iff (text : Text) : view.shows text = true ↔ view.shown = Units.encode text := by
  rw [shows, sound.units_eq, beq_iff_eq]

omit sound in
/-- Adding up the lengths of roots leads to the unit at an index. -/
theorem unitIn?_eq {geometry : Geometry} {forest : List (Tree UnitChunk)}
    (made : ∀ tree ∈ forest, Tree.Made geometry tree)
    (representable : forestLength forest < 2 ^ Geometry.indexBits) (index : Nat) :
    unitIn? geometry forest index = (forestElements forest)[index]? := by
  induction forest generalizing index with
  | nil => rfl
  | cons tree rest ih =>
      rw [List.forall_mem_cons] at made
      have whole : forestLength (tree :: rest) = tree.length + forestLength rest := rfl
      have elements : forestElements (tree :: rest) = tree.elements ++ forestElements rest := rfl
      rw [unitIn?, elements, made.1.elementAt_eq (by omega)]
      by_cases here : index < tree.length
      · rw [if_pos here]
        rw [made.1.length_eq] at here
        rw [dif_pos here, List.getElem?_append_left here, List.getElem?_eq_getElem here]
        rfl
      · rw [if_neg here, ih made.2 (by omega)]
        rw [made.1.length_eq] at here ⊢
        rw [List.getElem?_append_right (Nat.le_of_not_lt here)]

/-- The units that a view shows are those of its trees, counted from where it starts. -/
theorem getElem?_forestElements {index : Nat} (inside : index < view.shown.length) :
    (forestElements view.forest)[view.start + index]? = some view.shown[index] := by
  rw [← List.getElem?_eq_getElem inside, shown, List.getElem?_take_of_lt, List.getElem?_drop]
  rw [← sound.length_eq] at inside
  exact inside

/-- **Reading a unit.** A view has a unit at each position before its end and refuses the others. -/
theorem get_eq (representable : forestLength view.forest < 2 ^ Geometry.indexBits)
    (index : Nat) :
    view.get index =
      if inside : index < view.shown.length then .ok view.shown[index]
      else .error (.indexOutOfRange index view.shown.length) := by
  rw [get, unitIn?_eq sound.made representable, sound.length_eq]
  by_cases inside : index < view.shown.length
  · rw [if_pos inside, sound.getElem?_forestElements inside, dif_pos inside]
  · rw [if_neg inside, dif_neg inside]

/-- What is cut out of a view is a view, of as many units as asked for. -/
theorem slice {start stop : Nat} {cut : UnitView} (granted : view.slice start stop = .ok cut) :
    Sound cut ∧ cut.shown = (view.shown.drop start).take (stop - start) := by
  rw [slice_eq] at granted
  split at granted
  · next within =>
      cases granted
      obtain ⟨ordered, fits⟩ := within
      rw [length] at fits
      have whole := sound.ordered
      have last : view.start + stop ≤ view.stop := by omega
      refine ⟨⟨sound.made, Nat.add_le_add_left ordered _, Nat.le_trans last sound.inside⟩, ?_⟩
      simp only [shown]
      rw [List.drop_take, List.drop_drop, List.take_take, Nat.add_sub_add_left,
        Nat.min_eq_left (by omega)]
  · cases granted

/-- A cut between cursors of a sound view is sound. -/
theorem sliceBetween {front back : Cursor UnitChunk} {cut : UnitView}
    (granted : view.sliceBetween front back = .ok cut) : Sound cut := by
  rw [sliceBetween_eq] at granted
  split at granted
  · next within =>
      cases granted
      exact ⟨sound.made, within.2.1, Nat.le_trans within.2.2 sound.inside⟩
  · cases granted

end Sound

/-- The views that are cut out of a view, by positions or by cursors. -/
inductive CutFrom (whole : UnitView) : UnitView → Prop where
  | whole : CutFrom whole whole
  | slice {view cut : UnitView} {start stop : Nat} (within : CutFrom whole view)
      (granted : view.slice start stop = .ok cut) : CutFrom whole cut
  | sliceBetween {view cut : UnitView} {front back : Cursor UnitChunk}
      (within : CutFrom whole view) (granted : view.sliceBetween front back = .ok cut) :
      CutFrom whole cut

/-- A cut between positions is a view of the same forest. -/
theorem forest_slice {view cut : UnitView} {start stop : Nat}
    (granted : view.slice start stop = .ok cut) : cut.forest = view.forest := by
  rw [slice_eq] at granted
  split at granted
  · cases granted
    rfl
  · cases granted

theorem forest_sliceBetween {view cut : UnitView} {front back : Cursor UnitChunk}
    (granted : view.sliceBetween front back = .ok cut) : cut.forest = view.forest := by
  rw [sliceBetween_eq] at granted
  split at granted
  · cases granted
    rfl
  · cases granted

/-- Views are cut out of a view without its trees being touched. -/
theorem CutFrom.sound {whole view : UnitView} (sound : Sound whole) (within : CutFrom whole view) :
    Sound view ∧ view.forest = whole.forest := by
  induction within with
  | whole => exact ⟨sound, rfl⟩
  | slice _ granted ih => exact ⟨(ih.1.slice granted).1, (forest_slice granted).trans ih.2⟩
  | sliceBetween _ granted ih =>
      exact ⟨ih.1.sliceBetween granted, (forest_sliceBetween granted).trans ih.2⟩

end UnitView

namespace Rope

section Views

variable [CharacterTable] {geometry : Geometry} {history : List Edit} {rope : Rope}

/-- The units of a chunk of text as a chunk. -/
def unitChunk (chunk : GraphemeChunk) : UnitChunk := ⟨chunk.units⟩

omit [CharacterTable] in
/-- A tree mirrored in units has the units of its text. -/
theorem elements_mapChunks_unitChunk (geometry : Geometry) (tree : Tree GraphemeChunk) :
    (tree.mapChunks geometry unitChunk).elements = Units.encode tree.text := by
  rw [Tree.elements_eq_elementsOf, Tree.chunks_mapChunks, Chunk.elementsOf, List.flatMap_map,
    Tree.text, Units.encode_flatMap]
  rfl

/-- The trees of a view hold the units of the text. -/
theorem forestElements_unitView (rope : Rope) :
    forestElements rope.unitView.forest = Units.encode rope.text := by
  have window : (Tree.makeLeaf rope.geometry [rope.window]).text = rope.window.text :=
    List.append_nil _
  change forestElements (rope.forest.map (Tree.mapChunks rope.geometry unitChunk)) = _
  simp only [forest, forestElements, List.map_cons, List.map_nil, List.flatMap_cons,
    List.flatMap_nil, List.append_nil, elements_mapChunks_unitChunk, window, text,
    Units.encode_append, List.append_assoc]

/-- The view of a whole rope is sound. -/
theorem sound_unitView (rope : Rope) : UnitView.Sound rope.unitView where
  made := by
    intro image member
    obtain ⟨tree, _, rfl⟩ := List.mem_map.mp member
    exact Tree.made_mapChunks _ _ tree
  ordered := Nat.zero_le _
  inside := Nat.le_refl _

/-- The forest of the view of a rope has as many elements as the text has units. -/
theorem forestLength_unitView (rope : Rope) :
    forestLength rope.unitView.forest = (Units.encode rope.text).length := by
  rw [← forestElements_unitView, ← Cursor.length_forestElements (sound_unitView rope).counted]

/-- The view of a whole rope shows the units of its text. -/
theorem shown_unitView (rope : Rope) : rope.unitView.shown = Units.encode rope.text := by
  have stop_eq : rope.unitView.stop = (Units.encode rope.text).length := forestLength_unitView rope
  rw [UnitView.shown, forestElements_unitView, stop_eq]
  exact List.take_length

/-- The forest of the view of a rope mirrors that of the rope. -/
theorem mirrors_unitView (measured : Measured rope) :
    List.Forall₂ (Tree.Mirrors unitChunk) rope.unitView.forest rope.forest :=
  .cons (Tree.mirrors_mapChunks measured.left unitChunk)
    (.cons (Tree.mirrors_mapChunks (.leaf _) unitChunk)
      (.cons (Tree.mirrors_mapChunks measured.right unitChunk) .nil))

/-- **Views agree with the text.** The view of a reachable rope has the units of its text, from the
front, from the back, and at each position, where the units can be counted by an index. It is the
same as the view of another exactly if the texts are the same, and as a text exactly if that is the
text of the rope. Each of its trees mirrors the one of the rope. -/
theorem unitView_agrees (reached : Reachable geometry history rope) :
    rope.unitView.length = (Units.encode rope.text).length ∧
    ((Units.encode rope.text).length < 2 ^ Geometry.indexBits → ∀ index,
      rope.unitView.get index =
        if inside : index < (Units.encode rope.text).length then
          .ok (Units.encode rope.text)[index]
        else .error (.indexOutOfRange index (Units.encode rope.text).length)) ∧
    rope.unitView.span.toList = Units.encode rope.text ∧
    rope.unitView.span.toListBack = (Units.encode rope.text).reverse ∧
    (∀ other : Rope, (rope.unitView == other.unitView) = true ↔ rope.text = other.text) ∧
    (∀ text, rope.unitView.shows text = true ↔ text = rope.text) ∧
    List.Forall₂ (Tree.Mirrors unitChunk) rope.unitView.forest rope.forest := by
  have sound := sound_unitView rope
  have shown := shown_unitView rope
  refine ⟨?_, ?_, ?_, ?_, ?_, ?_, mirrors_unitView reached.measured⟩
  · rw [sound.length_eq, shown]
  -- The bound is one on the trees, which hold as many units as the text.
  · intro representable index
    rw [← forestLength_unitView] at representable
    have unit := sound.get_eq representable index
    simp only [shown] at unit
    exact unit
  · rw [sound.toList_span, shown]
  · rw [sound.toListBack_span, shown]
  · intro other
    rw [sound.beq_iff (sound_unitView other), shown, shown_unitView other]
    exact Units.encode_injective.eq_iff
  · intro text
    rw [sound.shows_iff, shown, Units.encode_injective.eq_iff]
    exact eq_comm

end Views

/-- A character of two units at the end of the window, and a mark that was appended to it. -/
theorem unitView_agrees_after_append :
    let rope := (Rope.ofText .standard ['a', '😍']).append ['\u0301']
    rope.unitView.get 3 = .ok 0x301 ∧
      rope.unitView.span.toListBack = [0x301, 0xDE0D, 0xD83D, 0x61] := by
  intro rope
  have reached : Reachable .standard [.append ['\u0301']] rope :=
    .edit (.ofText _ (by decide +kernel)) _ rfl (by decide +kernel)
  have units : Units.encode rope.text = [0x61, 0xD83D, 0xDE0D, 0x301] := by decide +kernel
  obtain ⟨_, get, _, back, _⟩ := unitView_agrees reached
  simp only [units] at get back
  exact ⟨get (by decide) 3, back⟩

end Rope
end GraphemeRope
