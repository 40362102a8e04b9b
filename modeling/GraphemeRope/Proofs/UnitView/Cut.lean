import GraphemeRope.Proofs.UnitView

/-! # Views that are cut out of the view of a rope

A view that was cut out of the view of a rope, in whatever steps, shows a range of the units of the
rope. Positions in it are counted from where the range starts, but its cursors count from the first
unit of the rope, as do those of every other view (`GraphemeRope.Rope.cut_exact`). -/

namespace GraphemeRope

namespace UnitView

/-- The cursors that are obtained from a view and then moved, within the view or out of it. -/
def CursorOf (view : UnitView) (cursor : Cursor UnitChunk) : Prop :=
  ∃ moves, cursor = view.startCursor.walk moves ∨ cursor = view.endCursor.walk moves

/-- A unit past the end of a view is refused. -/
theorem get_of_length_le {view : UnitView} {index : Nat} (past : view.length ≤ index) :
    view.get index = .error (.indexOutOfRange index view.length) := by
  rw [get, if_neg (Nat.not_lt_of_le past)]

end UnitView

namespace Rope

section Ranges

variable [CharacterTable]

/-- The view of the units of a rope from one position up to another. -/
def unitsBetween (rope : Rope) (start stop : Nat) : UnitView :=
  { rope.unitView with start, stop }

/-- What it means that a view shows the units of a rope from one position up to another: it has that
many units, its positions are counted from the first of them, where the units of the rope can be
counted by an index, a traversal in either direction meets them, and its cursors are those of the
whole rope. -/
structure ShowsRange (rope : Rope) (view : UnitView) (start stop : Nat) : Prop where
  ordered : start ≤ stop
  inside : stop ≤ (Units.encode rope.text).length
  length : view.length = stop - start
  get_within (representable : (Units.encode rope.text).length < 2 ^ Geometry.indexBits)
    {index : Nat} (within : index < stop - start) :
    ∃ unit, (Units.encode rope.text)[start + index]? = some unit ∧ view.get index = .ok unit
  get_past {index : Nat} (past : stop - start ≤ index) :
    view.get index = .error (.indexOutOfRange index (stop - start))
  toList : view.span.toList = ((Units.encode rope.text).drop start).take (stop - start)
  toListBack :
    view.span.toListBack = (((Units.encode rope.text).drop start).take (stop - start)).reverse
  startCursor : view.startCursor.position = start
  endCursor : view.endCursor.position = stop
  cursor {cursor : Cursor UnitChunk} (ofView : view.CursorOf cursor) :
    cursor.position ≤ (Units.encode rope.text).length ∧
      cursor.value? = (Units.encode rope.text)[cursor.position]? ∧
      cursor = Cursor.locate rope.unitView.forest cursor.position

variable {rope : Rope} {start stop : Nat}

/-- The view of a range inside a text is sound. -/
theorem sound_unitsBetween (ordered : start ≤ stop)
    (inside : stop ≤ (Units.encode rope.text).length) :
    UnitView.Sound (rope.unitsBetween start stop) where
  made := (sound_unitView rope).made
  ordered := ordered
  inside := (forestLength_unitView rope).symm ▸ inside

/-- The view of a range shows the units in it. -/
theorem shown_unitsBetween (rope : Rope) (start stop : Nat) :
    (rope.unitsBetween start stop).shown =
      ((Units.encode rope.text).drop start).take (stop - start) := by
  rw [← forestElements_unitView]
  rfl

/-- The cursors of a range are those of the whole rope, wherever they were moved. -/
theorem cursor_of_unitsBetween {cursor : Cursor UnitChunk}
    (ofView : (rope.unitsBetween start stop).CursorOf cursor) :
    cursor.position ≤ (Units.encode rope.text).length ∧
      cursor.value? = (Units.encode rope.text)[cursor.position]? ∧
      cursor = Cursor.locate rope.unitView.forest cursor.position := by
  have counted := (sound_unitView rope).counted
  obtain ⟨position, reached, rfl⟩ : ∃ position ≤ forestLength rope.unitView.forest,
      cursor = Cursor.locate rope.unitView.forest position := by
    obtain ⟨moves, rfl | rfl⟩ := ofView
    · exact Cursor.exists_walk_locate counted start moves
    · exact Cursor.exists_walk_locate counted stop moves
  rw [Cursor.position_locate counted reached, ← forestLength_unitView, ← forestElements_unitView]
  exact ⟨reached, Cursor.value?_eq_getElem? counted position, rfl⟩

/-- The view of a range inside a text is one that shows the range. -/
theorem showsRange_unitsBetween (ordered : start ≤ stop)
    (inside : stop ≤ (Units.encode rope.text).length) :
    ShowsRange rope (rope.unitsBetween start stop) start stop := by
  have sound := sound_unitsBetween ordered inside
  have shown := shown_unitsBetween rope start stop
  have whole := forestLength_unitView rope
  have width : (rope.unitsBetween start stop).shown.length = stop - start := sound.length_eq.symm
  have first : start ≤ forestLength rope.unitView.forest := by omega
  have last : stop ≤ forestLength rope.unitView.forest := by omega
  exact
    { ordered, inside
      length := rfl
      get_within := by
        intro representable index within
        rw [← whole] at representable
        rw [← width] at within
        have unit := sound.getElem?_forestElements within
        have read := sound.get_eq representable index
        rw [dif_pos within] at read
        exact ⟨_, forestElements_unitView rope ▸ unit, read⟩
      get_past := fun past => UnitView.get_of_length_le past
      toList := shown ▸ sound.toList_span
      toListBack := shown ▸ sound.toListBack_span
      startCursor := Cursor.position_locate sound.counted first
      endCursor := Cursor.position_locate sound.counted last
      cursor := cursor_of_unitsBetween }

/-- The view of a range is cut to a range inside it, and refuses others. -/
theorem slice_unitsBetween (rope : Rope) (start stop first last : Nat) :
    (rope.unitsBetween start stop).slice first last =
      if first ≤ last ∧ last ≤ stop - start then
        .ok (rope.unitsBetween (start + first) (start + last))
      else .error (.rangeOutOfBounds first last (stop - start)) :=
  UnitView.slice_eq (rope.unitsBetween start stop) first last

/-- The view of a range is cut between cursors that stand inside it in order, and refuses others. -/
theorem sliceBetween_unitsBetween (rope : Rope) (start stop : Nat) (front back : Cursor UnitChunk) :
    (rope.unitsBetween start stop).sliceBetween front back =
      if start ≤ front.position ∧ front.position ≤ back.position ∧ back.position ≤ stop then
        .ok (rope.unitsBetween front.position back.position)
      else .error (.rangeOutOfBounds (front.position - start) (back.position - start)
        (stop - start)) :=
  UnitView.sliceBetween_eq (rope.unitsBetween start stop) front back

/-- The view of a rope is that of all its units. -/
theorem unitView_eq (rope : Rope) :
    rope.unitView = rope.unitsBetween 0 (Units.encode rope.text).length := by
  rw [← forestLength_unitView]
  rfl

/-- In whatever steps a view was cut out of the view of a rope, it is the view of a range. -/
theorem exists_range_of_cutFrom {view : UnitView} (cut : UnitView.CutFrom rope.unitView view) :
    ∃ start stop, start ≤ stop ∧ stop ≤ (Units.encode rope.text).length ∧
      view = rope.unitsBetween start stop := by
  induction cut with
  | whole => exact ⟨0, _, Nat.zero_le _, Nat.le_refl _, unitView_eq rope⟩
  | slice _ granted ih =>
      obtain ⟨start, stop, ordered, inside, rfl⟩ := ih
      rw [slice_unitsBetween] at granted
      split at granted
      · next fits =>
          cases granted
          exact ⟨_, _, Nat.add_le_add_left fits.1 _, by omega, rfl⟩
      · cases granted
  | sliceBetween _ granted ih =>
      obtain ⟨start, stop, _, inside, rfl⟩ := ih
      rw [sliceBetween_unitsBetween] at granted
      split at granted
      · next fits =>
          cases granted
          exact ⟨_, _, fits.2.1, Nat.le_trans fits.2.2 inside, rfl⟩
      · cases granted

/-- **Views compose.** A view that was cut out of the view of a rope, in whatever steps, shows a
range of the units of the rope. It can be cut further at positions that are in order and within its
length, which are counted from its start, and between cursors that are in order and stand in it,
which count from the first unit of the rope whatever view they come from. All else is refused. -/
theorem cut_exact (rope : Rope) {view : UnitView} (cut : UnitView.CutFrom rope.unitView view) :
    ∃ start stop, ShowsRange rope view start stop ∧
      (∀ first last,
        if first ≤ last ∧ last ≤ stop - start then
          ∃ inner, view.slice first last = .ok inner ∧
            ShowsRange rope inner (start + first) (start + last)
        else view.slice first last = .error (.rangeOutOfBounds first last (stop - start))) ∧
      ∀ front back : Cursor UnitChunk,
        if start ≤ front.position ∧ front.position ≤ back.position ∧ back.position ≤ stop then
          ∃ inner, view.sliceBetween front back = .ok inner ∧
            ShowsRange rope inner front.position back.position
        else view.sliceBetween front back =
          .error (.rangeOutOfBounds (front.position - start) (back.position - start)
            (stop - start)) := by
  obtain ⟨start, stop, ordered, inside, rfl⟩ := exists_range_of_cutFrom cut
  refine ⟨start, stop, showsRange_unitsBetween ordered inside, ?_, ?_⟩
  · intro first last
    rw [slice_unitsBetween]
    split
    · next fits =>
        exact ⟨_, rfl, showsRange_unitsBetween (Nat.add_le_add_left fits.1 _) (by omega)⟩
    · rfl
  · intro front back
    rw [sliceBetween_unitsBetween]
    split
    · next fits =>
        exact ⟨_, rfl, showsRange_unitsBetween fits.2.1 (Nat.le_trans fits.2.2 inside)⟩
    · rfl

end Ranges

/-- A cut from inside a surrogate pair, between cursors of two other views. -/
theorem cut_exact_of_slices :
    let rope := Rope.ofText .standard ['a', '😍', 'b']
    ∃ outer other inner, rope.unitView.slice 1 4 = .ok outer ∧
      rope.unitView.slice 2 2 = .ok other ∧
      outer.sliceBetween other.startCursor rope.unitView.endCursor = .ok inner ∧
      inner.get 1 = .ok 0x62 ∧ inner.span.toListBack = [0x62, 0xDE0D] ∧
      inner.slice 1 3 = .error (.rangeOutOfBounds 1 3 2) := by
  intro rope
  have units : Units.encode rope.text = [0x61, 0xD83D, 0xDE0D, 0x62] := by decide +kernel
  have total : rope.unitView.length = 4 := by
    rw [(sound_unitView rope).length_eq, shown_unitView, units]
    rfl
  obtain ⟨start, stop, whole, slices, _⟩ := cut_exact rope .whole
  obtain ⟨rfl, rfl⟩ : start = 0 ∧ stop = 4 := by
    have inside := whole.inside
    rw [units] at inside
    change stop ≤ 4 at inside
    have width := total.symm.trans whole.length
    omega
  obtain ⟨outer, outerCut, outerRange⟩ := slices 1 4
  obtain ⟨other, otherCut, otherRange⟩ := slices 2 2
  obtain ⟨first, last, sameRange, _, between⟩ := cut_exact rope (.slice .whole outerCut)
  obtain rfl : first = 0 + 1 := sameRange.startCursor.symm.trans outerRange.startCursor
  obtain rfl : last = 0 + 4 := sameRange.endCursor.symm.trans outerRange.endCursor
  have granted := between other.startCursor rope.unitView.endCursor
  rw [otherRange.startCursor, whole.endCursor, if_pos (by decide)] at granted
  obtain ⟨inner, innerCut, innerRange⟩ := granted
  obtain ⟨first, last, sameInner, refused, _⟩ :=
    cut_exact rope (.sliceBetween (.slice .whole outerCut) innerCut)
  obtain rfl : first = 0 + 2 := sameInner.startCursor.symm.trans innerRange.startCursor
  obtain rfl : last = 4 := sameInner.endCursor.symm.trans innerRange.endCursor
  refine ⟨outer, other, inner, outerCut, otherCut, innerCut, ?_, ?_, refused 1 3⟩
  · have second : 1 < 4 - (0 + 2) := by decide
    obtain ⟨unit, owner, read⟩ := innerRange.get_within (by rw [units]; decide) second
    rw [units] at owner
    cases owner
    exact read
  · rw [innerRange.toListBack, units]
    rfl

end Rope
end GraphemeRope
