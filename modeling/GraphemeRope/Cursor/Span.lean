import GraphemeRope.Cursor.Basic

/-! # Spans

A span is what lies between two cursors of one forest. It can be consumed from both ends. -/

namespace GraphemeRope

/-- The elements from one cursor up to another. -/
structure Span (α : Type) where
  front : Cursor α
  back : Cursor α

namespace Span

variable {α ε : Type}

/-- The number of elements left, which is zero if the cursors are in the wrong order. -/
def remaining (span : Span α) : Nat := span.back.position - span.front.position

/-- How many elements are left at least and at most. -/
def sizeHint (span : Span α) : Nat × Option Nat := (span.remaining, some span.remaining)

variable [Chunk α ε]

/-- The first element and the span after it. -/
def next? (span : Span α) : Option (ε × Span α) :=
  if span.remaining = 0 then none
  else
    match span.front.value?, span.front.advance with
    | some element, .ok front => some (element, { span with front })
    | _, _ => none

/-- The last element and the span before it. -/
def nextBack? (span : Span α) : Option (ε × Span α) :=
  if span.remaining = 0 then none
  else
    match span.back.retreat with
    | .ok back => back.value?.map fun element => (element, { span with back })
    | .error _ => none

/-- Up to `count` elements from the front. -/
def takeFront : Nat → Span α → List ε
  | 0, _ => []
  | count + 1, span =>
      match span.next? with
      | some (element, later) => element :: takeFront count later
      | none => []

/-- Up to `count` elements from the back, the last one first. -/
def takeBack : Nat → Span α → List ε
  | 0, _ => []
  | count + 1, span =>
      match span.nextBack? with
      | some (element, earlier) => element :: takeBack count earlier
      | none => []

/-- All elements of the span in order. -/
def toList (span : Span α) : List ε := takeFront span.remaining span

/-- All elements of the span, the last one first. -/
def toListBack (span : Span α) : List ε := takeBack span.remaining span

/-- A call that consumes a span in place. If it is refused it leaves the span as it is by then. -/
abbrev Call (α β : Type) := EStateM CursorError (Span α) β

omit [Chunk α ε] in
/-- Moves the front cursor. -/
def moveFront (move : Cursor.Move α Unit) : Call α Unit := fun span =>
  match move.run span.front with
  | .ok _ front => .ok () { span with front }
  | .error error front => .error error { span with front }

omit [Chunk α ε] in
/-- Moves the back cursor. -/
def moveBack (move : Cursor.Move α Unit) : Call α Unit := fun span =>
  match move.run span.back with
  | .ok _ back => .ok () { span with back }
  | .error error back => .error error { span with back }

/-- Takes the element at one end, unless there is none left. The front is read before it is moved
on, the back is read after it was moved back. -/
def draw (direction : Direction) : Call α (Option ε) := do
  let span ← get
  if span.remaining = 0 then return none
  match direction with
  | .forward =>
      moveFront Cursor.stepForward
      return span.front.value?
  | .backward =>
      moveBack Cursor.stepBackward
      return (← get).back.value?

end Span
end GraphemeRope
