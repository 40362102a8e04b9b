import GraphemeRope.Chunk.Unit
import GraphemeRope.Rope.Basic
import GraphemeRope.Tree.Map

/-! # UTF-16 views of ropes

A view re-reads the text of a rope as UTF-16 units, over trees of the same shape. It shows a range
of the units and can be cut further; positions are counted from its start. -/

namespace GraphemeRope

/-- The units of a rope from `start` up to `stop`. -/
structure UnitView where
  geometry : Geometry
  forest : List (Tree UnitChunk)
  start : Nat
  stop : Nat

/-- The view of all units of a rope. -/
def Rope.unitView [CharacterTable] (rope : Rope) : UnitView :=
  let forest := rope.forest.map
    (Tree.mapChunks rope.geometry fun chunk : GraphemeChunk => UnitChunk.mk chunk.units)
  ⟨rope.geometry, forest, 0, forestLength forest⟩

namespace UnitView

variable (view : UnitView)

/-- The number of units. -/
def length : Nat := view.stop - view.start

/-- Whether there are no units. -/
def isEmpty : Bool := view.stop ≤ view.start

/-- The unit at an index of a row of trees. -/
def unitIn? (geometry : Geometry) : List (Tree UnitChunk) → Nat → Option UInt16
  | [], _ => none
  | tree :: rest, index =>
      if index < tree.length then (tree.elementAt geometry index).toOption
      else unitIn? geometry rest (index - tree.length)

/-- The unit at a position of the view. -/
def get (index : Nat) : Except RopeError UInt16 :=
  match
    if index < view.length then unitIn? view.geometry view.forest (view.start + index) else none
  with
  | some unit => .ok unit
  | none => .error (.indexOutOfRange index view.length)

/-- The cursor at the first unit. Cursors of a view can be moved over all units of the rope. -/
def startCursor : Cursor UnitChunk := Cursor.locate view.forest view.start

/-- The cursor after the last unit. -/
def endCursor : Cursor UnitChunk := Cursor.locate view.forest view.stop

/-- All units, to be consumed from both ends. -/
def span : Span UnitChunk := ⟨view.startCursor, view.endCursor⟩

/-- The units in order. -/
def units : List UInt16 := view.span.toList

/-- The view of a range of this one. -/
def slice (start stop : Nat) : Except RopeError UnitView :=
  if stop < start || view.length < stop then .error (.rangeOutOfBounds start stop view.length)
  else .ok { view with start := view.start + start, stop := view.start + stop }

/-- The view of what lies between two cursors, both of which must stand in this one. -/
def sliceBetween (front back : Cursor UnitChunk) : Except RopeError UnitView :=
  if front.position < view.start || back.position < front.position ||
      view.stop < back.position then
    .error (.rangeOutOfBounds (front.position - view.start) (back.position - view.start)
      view.length)
  else view.slice (front.position - view.start) (back.position - view.start)

/-- The text of the units, each unpaired surrogate replaced. -/
def decode : Text := Units.decode view.units

/-- Two views are the same if they show the same units. -/
instance : BEq UnitView :=
  ⟨fun first second => first.length == second.length && first.units == second.units⟩

/-- Whether the units are those of a text. -/
def shows (text : Text) : Bool := view.units == Units.encode text

/-- The view as it is shown to a reader. -/
def describe : Text := Units.describe view.units

end UnitView
end GraphemeRope
