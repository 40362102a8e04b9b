import GraphemeRope.Guarded.View
import GraphemeRope.Proofs.Guarded.Tree
import GraphemeRope.Proofs.UnitView

/-! # Guarded reading is safe

A cursor that was located and then moved in any manner can be read, and its moves are refused only
at the ends. A span yields its elements in whatever order it is consumed from both ends. A view that
was cut out of the view of a rope can be read at every position. -/

namespace GraphemeRope

/-- What is drawn from the ends of a row, in some order. -/
def drawn {β : Type} : List β → List Direction → List (Option β)
  | _, [] => []
  | row, .forward :: rest => row.head? :: drawn row.tail rest
  | row, .backward :: rest => row.getLast? :: drawn row.dropLast rest

namespace Guarded

section Spans

variable {α ε : Type} [Chunk α ε] [Access α ε] [LawfulAccess α]

/-- The element that a cursor shows is read without a fault. -/
theorem value_of_value? {cursor : Cursor α} {element : ε} (shown : cursor.value? = some element) :
    value cursor = .ok (some element) := by
  obtain ⟨chunk, present, read⟩ := Option.bind_eq_some_iff.mp shown
  simp only [value, present, LawfulAccess.read_eq read]
  rfl

/-- What a span yields in front is pulled without a fault. -/
theorem pull_of_next? {span later : Span α} {element : ε}
    (stepped : span.next? = some (element, later)) :
    pull span .forward = .ok (some (element, later)) := by
  unfold Span.next? at stepped
  split at stepped
  · cases stepped
  · next left =>
      split at stepped
      · next shown moved =>
          cases stepped
          simp only [pull, if_neg left, value_of_value? shown, moved]
          rfl
      · cases stepped

/-- What a span yields at the back is pulled without a fault. -/
theorem pull_of_nextBack? {span earlier : Span α} {element : ε}
    (stepped : span.nextBack? = some (element, earlier)) :
    pull span .backward = .ok (some (element, earlier)) := by
  unfold Span.nextBack? at stepped
  split at stepped
  · cases stepped
  · next left =>
      split at stepped
      · next back moved =>
          obtain ⟨shown, value_eq, same⟩ := Option.map_eq_some_iff.mp stepped
          cases same
          simp only [pull, if_neg left, moved, ok_bind, value_of_value? value_eq]
          rfl
      · cases stepped

variable {forest : List (Tree α)} (counted : ∀ tree ∈ forest, Tree.Counted tree)
include counted

omit [LawfulAccess α] in
/-- Nothing is pulled from an empty span. -/
theorem pull_between_self (direction : Direction) {position : Nat}
    (inside : position ≤ forestLength forest) :
    pull (Span.between forest position position) direction = .ok none := by
  have empty : (Span.between forest position position).remaining = 0 := by
    rw [Span.remaining_between counted inside inside, Nat.sub_self]
  unfold pull
  rw [if_pos empty]

/-- **Consuming a span is safe**, from both ends and in any order. -/
theorem pulls_between {start stop : Nat} (ordered : start ≤ stop)
    (inside : stop ≤ forestLength forest) (directions : List Direction) :
    pulls (Span.between forest start stop) directions =
      .ok (drawn (((forestElements forest).drop start).take (stop - start)) directions) := by
  -- What is left after a draw lies between two positions again, one of them moved.
  induction directions generalizing start stop with
  | nil => rfl
  | cons direction rest ih =>
      rcases Nat.eq_or_lt_of_le ordered with rfl | filled
      · have again := ih (Nat.le_refl start) inside
        rw [Nat.sub_self, List.take_zero] at again ⊢
        rw [pulls, pull_between_self counted direction inside, ok_bind]
        simp only [again, ok_bind]
        cases direction with
        | forward => rfl
        | backward => rfl
      · cases direction with
        | forward =>
            obtain ⟨element, owner, stepped⟩ := Span.next?_between counted filled inside
            obtain ⟨present, rfl⟩ := List.getElem?_eq_some_iff.mp owner
            have width : stop - start = stop - (start + 1) + 1 := by omega
            rw [pulls, pull_of_next? stepped, ok_bind, List.drop_eq_getElem_cons present, width,
              List.take_succ_cons]
            simp only [ih filled inside, ok_bind]
            rfl
        | backward =>
            obtain ⟨last, rfl⟩ := Nat.exists_eq_succ_of_ne_zero (Nat.ne_zero_of_lt filled)
            have before : start ≤ last := Nat.le_of_lt_succ filled
            obtain ⟨element, owner, stepped⟩ := Span.nextBack?_between counted before inside
            have row : ((forestElements forest).drop start).take (last + 1 - start) =
                ((forestElements forest).drop start).take (last - start) ++ [element] := by
              rw [Nat.succ_sub before, List.take_add_one, List.getElem?_drop,
                Nat.add_sub_cancel' before, owner]
              rfl
            rw [pulls, pull_of_nextBack? stepped, ok_bind, row, drawn, List.getLast?_concat,
              List.dropLast_concat]
            simp only [ih before (Nat.le_of_succ_le inside), ok_bind]
            rfl

/-- Collecting what is between two positions is safe. -/
theorem collect_between (count : Nat) {start : Nat} (inside : start + count ≤ forestLength forest) :
    collect count (Span.between forest start (start + count)) =
      .ok (Span.takeFront count (Span.between forest start (start + count))) := by
  induction count generalizing start with
  | zero => rfl
  | succ count ih =>
      have filled : start < start + (count + 1) := by omega
      obtain ⟨element, _, stepped⟩ := Span.next?_between counted filled inside
      have rest : start + (count + 1) = start + 1 + count := by omega
      rw [collect, Span.takeFront, pull_of_next? stepped, stepped, ok_bind]
      simp only [rest, ih (rest ▸ inside)]
      rfl

/-- What holds of a forest whose cursors can be located, moved and read without a fault: a move is
refused only past the end and before the start. -/
structure Readable (forest : List (Tree α)) : Prop where
  located (position : Nat) :
    Cursor.locateFrom forest position 0 0 forest = .ok (Cursor.locate forest position)
  value (position : Nat) (moves : List Direction) :
    let cursor := (Cursor.locate forest position).walk moves
    value cursor = .ok cursor.value?
  advance (position : Nat) (moves : List Direction) :
    let cursor := (Cursor.locate forest position).walk moves
    cursor.advance =
      if cursor.position < forestLength forest then
        .ok (Cursor.locate forest (cursor.position + 1))
      else .error .pastEnd
  retreat (position : Nat) (moves : List Direction) :
    let cursor := (Cursor.locate forest position).walk moves
    cursor.retreat =
      if 0 < cursor.position then .ok (Cursor.locate forest (cursor.position - 1))
      else .error .beforeStart
  pulls {start stop : Nat} (ordered : start ≤ stop) (inside : stop ≤ forestLength forest)
    (directions : List Direction) :
    pulls (Span.between forest start stop) directions =
      .ok (drawn (((forestElements forest).drop start).take (stop - start)) directions)

/-- **Cursors are safe** over any forest whose lengths are right. -/
theorem readable : Readable forest where
  located position := by
    rcases Nat.lt_or_ge position (forestLength forest) with inside | past
    · exact (Cursor.value?_locate counted inside).1
    · rw [Cursor.locate_past past]
      exact Cursor.locateFrom_past forest 0 0 (by rw [Nat.zero_add]; exact past)
  value position moves := by
    obtain ⟨next, within, same⟩ := Cursor.exists_walk_locate counted position moves
    simp only [same]
    rcases Nat.eq_or_lt_of_le within with last | inside
    · rw [Cursor.locate_past (Nat.le_of_eq last.symm)]
      rfl
    · have shown := (Cursor.value?_locate counted inside).2
      rw [Cursor.length_forestElements counted] at inside
      rw [List.getElem?_eq_getElem inside] at shown
      rw [value_of_value? shown, shown]
  advance position moves := by
    obtain ⟨next, within, same⟩ := Cursor.exists_walk_locate counted position moves
    simp only [same, Cursor.position_locate counted within]
    rcases Nat.eq_or_lt_of_le within with last | inside
    · rw [if_neg (Nat.not_lt_of_le (Nat.le_of_eq last.symm)),
        Cursor.locate_past (Nat.le_of_eq last.symm)]
      rfl
    · rw [if_pos inside, Cursor.advance_locate counted inside]
  retreat position moves := by
    obtain ⟨next, within, same⟩ := Cursor.exists_walk_locate counted position moves
    simp only [same, Cursor.position_locate counted within]
    cases next with
    | zero =>
        rw [if_neg (Nat.lt_irrefl 0), Cursor.retreat, Cursor.after,
          Cursor.run_stepBackward_locate_zero counted]
    | succ next => rw [if_pos (Nat.succ_pos next), Cursor.retreat_locate counted within,
        Nat.add_sub_cancel]
  pulls ordered inside directions := pulls_between counted ordered inside directions

end Spans

section Views

/-- The units of a row of trees are found by taking off the lengths of those before. -/
theorem unitIn_eq {geometry : Geometry} {forest : List (Tree UnitChunk)}
    (made : ∀ tree ∈ forest, Tree.Made geometry tree)
    (representable : forestLength forest < 2 ^ Geometry.indexBits) {index : Nat} {unit : UInt16}
    (present : (forestElements forest)[index]? = some unit) :
    unitIn geometry forest index = .ok (.ok unit) := by
  induction forest generalizing index with
  | nil => cases present
  | cons tree rest ih =>
      rw [List.forall_mem_cons] at made
      have whole : forestLength (tree :: rest) = tree.length + forestLength rest := rfl
      have elements : forestElements (tree :: rest) = tree.elements ++ forestElements rest := rfl
      rw [elements] at present
      rw [unitIn]
      by_cases here : index < tree.length
      · rw [if_pos here, treeElementAt_eq made.1 (by omega), made.1.elementAt_eq (by omega)]
        rw [made.1.length_eq] at here
        rw [List.getElem?_append_left here, List.getElem?_eq_getElem here] at present
        rw [dif_pos here]
        cases present
        rfl
      · have passed := Nat.le_of_not_lt here
        rw [if_neg here, sub_of_le passed, ok_bind]
        apply ih made.2 (by omega)
        rw [made.1.length_eq] at passed ⊢
        rw [← List.getElem?_append_right passed]
        exact present

variable {view : UnitView} (sound : UnitView.Sound view)
include sound

/-- A unit of a view is looked up without a fault. -/
theorem unitAt_eq (representable : forestLength view.forest < 2 ^ Geometry.indexBits)
    (index : Nat) : unitAt view index = .ok (view.get index) := by
  rw [unitAt, sound.get_eq representable]
  by_cases inside : index < view.shown.length
  · rw [if_neg (sound.length_eq ▸ Nat.not_le_of_lt inside), dif_pos inside,
      unitIn_eq sound.made representable (sound.getElem?_forestElements inside)]
  · rw [if_pos (sound.length_eq ▸ Nat.le_of_not_lt inside), dif_neg inside, sound.length_eq]

/-- All units of a view are collected without a fault. -/
theorem units_eq : units view = .ok view.units := by
  obtain ⟨count, stop_eq⟩ := Nat.exists_eq_add_of_le sound.ordered
  have inside := sound.inside
  have remaining := Span.remaining_between sound.counted
    (Nat.le_trans sound.ordered sound.inside) sound.inside
  have collected := collect_between sound.counted count (stop_eq ▸ inside)
  rw [← stop_eq] at collected
  rw [stop_eq, Nat.add_sub_cancel_left, ← stop_eq] at remaining
  change collect (Span.between view.forest view.start view.stop).remaining
    (Span.between view.forest view.start view.stop) = .ok (Span.takeFront
      (Span.between view.forest view.start view.stop).remaining
      (Span.between view.forest view.start view.stop))
  rw [remaining, collected]

omit sound in
/-- A view is cut between cursors without a fault. -/
theorem sliceBetween_eq (view : UnitView) (front back : Cursor UnitChunk) :
    sliceBetween view front back = .ok (view.sliceBetween front back) := by
  rw [sliceBetween, UnitView.sliceBetween]
  split
  · rfl
  · next within =>
      simp only [Bool.or_eq_true, decide_eq_true_eq, not_or, Nat.not_lt] at within
      rw [sub_of_le within.1.1, sub_of_le (Nat.le_trans within.1.1 within.1.2)]
      rfl

end Views
end Guarded
end GraphemeRope
