import GraphemeRope.Guarded.Tree
import GraphemeRope.UnitView

/-! # Guarded reading of cursors, spans and views

A cursor reads its chunk, a span moves its cursors, and a view looks units up and counts positions
from its start, all of which is guarded. What else a view does, it does with its length and with the
units that its span yields. -/

namespace GraphemeRope
namespace Guarded

section Spans

variable {α ε : Type} [Chunk α ε] [Access α ε]

/-- The element at a cursor, which only the end lacks. -/
def value (cursor : Cursor α) : Except Fault (Option ε) :=
  match cursor.chunk? with
  | none => .ok none
  | some chunk => do
      let element ← Access.read chunk cursor.offset
      return some element

/-- An element of a span at one of its ends, and the span without it. -/
def pull (span : Span α) (direction : Direction) : Except CursorError (Option (ε × Span α)) :=
  if span.remaining = 0 then .ok none
  else
    match direction with
    | .forward => do
        let element? ← (value span.front).mapError .broken
        let front ← span.front.advance
        return element?.map fun element => (element, { span with front })
    | .backward => do
        let back ← span.back.retreat
        let element? ← (value back).mapError .broken
        return element?.map fun element => (element, { span with back })

/-- What a span yields when it is consumed from both ends in some order. -/
def pulls (span : Span α) : List Direction → Except CursorError (List (Option ε))
  | [] => .ok []
  | direction :: rest => do
      match ← pull span direction with
      | some (element, left) => return some element :: (← pulls left rest)
      | none => return none :: (← pulls span rest)

/-- Up to `count` elements from the front of a span. -/
def collect : Nat → Span α → Except CursorError (List ε)
  | 0, _ => .ok []
  | count + 1, span => do
      match ← pull span .forward with
      | some (element, later) => return element :: (← collect count later)
      | none => return []

end Spans

/-- The unit at an index of a row of trees, which must lie in one of them. -/
def unitIn (geometry : Geometry) :
    List (Tree UnitChunk) → Nat → Except Fault (Except RopeError UInt16)
  | [], _ => .error .unreachable
  | tree :: rest, index =>
      if index < tree.length then treeElementAt geometry tree index
      else do
        let remaining ← sub index tree.length
        unitIn geometry rest remaining

variable (view : UnitView)

/-- The unit at a position of a view. -/
def unitAt (index : Nat) : Except Fault (Except RopeError UInt16) :=
  if view.length ≤ index then .ok (.error (.indexOutOfRange index view.length))
  else unitIn view.geometry view.forest (view.start + index)

/-- The view of what lies between two cursors, both of which must stand in this one. -/
def sliceBetween (front back : Cursor UnitChunk) : Except Fault (Except RopeError UnitView) :=
  if front.position < view.start || back.position < front.position ||
      view.stop < back.position then
    .ok (.error (.rangeOutOfBounds (front.position - view.start) (back.position - view.start)
      view.length))
  else do
    let start ← sub front.position view.start
    let stop ← sub back.position view.start
    return view.slice start stop

/-- The units of a view in order. -/
def units : Except CursorError (List UInt16) := collect view.span.remaining view.span

end Guarded
end GraphemeRope
