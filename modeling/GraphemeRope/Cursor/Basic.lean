import GraphemeRope.Cursor.Place
import GraphemeRope.Error

/-! # Cursors

A forest is a row of trees that are read one after another. A cursor stands at an element of a
forest or at its end, and knows how many elements are before it. It is moved in place. -/

namespace GraphemeRope

/-- The number of elements of a forest. -/
def forestLength {α : Type} (forest : List (Tree α)) : Nat := total (forest.map Tree.length)

/-- Why a cursor cannot be moved. -/
inductive CursorError where
  /-- There is nothing after the end. -/
  | pastEnd
  /-- There is nothing before the first element. -/
  | beforeStart
  /-- The forest is inconsistent. -/
  | broken (fault : Fault)
  deriving DecidableEq, Repr

/-- The sentence that reports a refused move. -/
def CursorError.message : CursorError → String
  | .pastEnd => "cannot advance past the end of a rope"
  | .beforeStart => "cannot retreat before the start of a rope"
  | .broken fault => fault.message

/-- A position in a forest: the root and the way down to its element, the nearest tree and slot
first, the chunk and the offset in it. The end has neither way nor chunk. -/
structure Cursor (α : Type) where
  forest : List (Tree α)
  root : Nat
  path : List (Tree α × Nat)
  chunk? : Option α
  offset : Nat
  position : Nat

namespace Cursor

variable {α ε : Type}

/-- The cursor after the last element. -/
def atEnd (forest : List (Tree α)) : Cursor α :=
  ⟨forest, forest.length, [], none, 0, forestLength forest⟩

/-- The cursor at a place in one of the roots. -/
def atPlace (forest : List (Tree α)) (root position : Nat) (place : Place α) : Cursor α :=
  ⟨forest, root, place.path, some place.chunk, place.offset, position⟩

/-- Whether the cursor is at the end. -/
def isEnd (cursor : Cursor α) : Bool := cursor.chunk?.isNone

/-- The number of slots on the way down to the cursor, which is zero at the end. -/
def depth (cursor : Cursor α) : Nat := cursor.path.length

variable [Chunk α ε]

/-- The cursor at a position of a forest, of which `roots` are the trees from `root` on and `before`
is the number of elements before them. Past the last element it is the end. -/
def locateFrom (forest : List (Tree α)) (position root before : Nat) :
    List (Tree α) → Except Fault (Cursor α)
  | [] => .ok (atEnd forest)
  | tree :: rest =>
      if position < before + tree.length then do
        let index ← Guarded.sub position before
        return atPlace forest root position (← Place.descend [] tree index)
      else locateFrom forest position (root + 1) (before + tree.length) rest

/-- The cursor at a position, or at the end if the forest has no such element. -/
def locate (forest : List (Tree α)) (position : Nat) : Cursor α :=
  match locateFrom forest position 0 0 forest with
  | .ok cursor => cursor
  | .error _ => atEnd forest

/-- The cursor at the first element. -/
def atStart (forest : List (Tree α)) : Cursor α := locate forest 0

/-- The cursor at a position, which is refused past the end. -/
def ofPosition (forest : List (Tree α)) (position : Nat) : Except RopeError (Cursor α) :=
  if forestLength forest < position then .error (.indexOutOfRange position (forestLength forest))
  else .ok (locate forest position)

/-- The element at the cursor, which only the end lacks. -/
def value? (cursor : Cursor α) : Option ε := cursor.chunk?.bind (Chunk.element? · cursor.offset)

/-- A step of a cursor in place. A step that is refused leaves the cursor as it is by then. -/
abbrev Move (α β : Type) := EStateM CursorError (Cursor α) β

/-- A result that was found, unless the forest is inconsistent. -/
def found {β : Type} : Except Fault β → Move α β
  | .ok result => pure result
  | .error fault => throw (.broken fault)

omit [Chunk α ε] in
/-- Puts the cursor at a place in a root. -/
def stand (root : Nat) (place : Place α) : Move α Unit :=
  modify fun cursor => atPlace cursor.forest root cursor.position place

omit [Chunk α ε] in
/-- Puts the cursor at a place that was found in a root, or else does what is to be done beyond it.
-/
def standOr (root : Nat) (beyond : Move α Unit) : Option (Place α) → Move α Unit
  | some place => stand root place
  | none => beyond

/-- The place in a root that a walk in this direction meets first. -/
def edgeOfRoot (direction : Direction) (forest : List (Tree α)) (root : Nat) :
    Move α (Option (Place α)) := do
  let tree ← found (Guarded.get forest root)
  found (Place.edge direction tree)

/-- Puts the cursor on the first element after its root, or at the end. -/
def enterNextRoot : Move α Unit := do
  let cursor ← get
  set { cursor with path := [] }
  match ← found (Direction.forward.beyond (cursor.forest.map Tree.length) cursor.root) with
  | none => finish
  | some root =>
      standOr root finish (← edgeOfRoot .forward cursor.forest root)
where
  /-- Puts the cursor at the end. -/
  finish : Move α Unit :=
    modify fun cursor =>
      { cursor with root := cursor.forest.length, chunk? := none, offset := 0 }

/-- Puts the cursor on the last element before its root, which must be there. -/
def enterPreviousRoot : Move α Unit := do
  let cursor ← get
  set { cursor with path := [] }
  match ← found (Direction.backward.beyond (cursor.forest.map Tree.length) cursor.root) with
  | none => throw .beforeStart
  | some root =>
      set { cursor with path := [], root }
      standOr root (return ()) (← edgeOfRoot .backward cursor.forest root)

/-- Moves the cursor to the next element, or to the end after the last one. -/
def stepForward : Move α Unit := do
  let cursor ← get
  match cursor.chunk? with
  | none => throw .pastEnd
  | some chunk =>
      set { cursor with position := cursor.position + 1 }
      if cursor.offset + 1 < Chunk.length chunk then
        set { cursor with position := cursor.position + 1, offset := cursor.offset + 1 }
      else
        standOr cursor.root enterNextRoot (← found (Place.climb .forward cursor.path))

/-- Moves the cursor to the previous element. -/
def stepBackward : Move α Unit := do
  let cursor ← get
  if cursor.chunk?.isSome && 0 < cursor.offset then
    let position ← found (Guarded.sub cursor.position 1)
    set { cursor with position, offset := cursor.offset - 1 }
  else if cursor.position = 0 then
    throw .beforeStart
  else
    set { cursor with position := cursor.position - 1 }
    standOr cursor.root enterPreviousRoot (← found (Place.climb .backward cursor.path))

/-- The cursor after a move, if that is not refused. -/
def after (cursor : Cursor α) (move : Move α Unit) : Except CursorError (Cursor α) :=
  match move.run cursor with
  | .ok _ moved => .ok moved
  | .error error _ => .error error

/-- The cursor at the next element, or at the end after the last one. -/
def advance (cursor : Cursor α) : Except CursorError (Cursor α) := cursor.after stepForward

/-- The cursor at the previous element. -/
def retreat (cursor : Cursor α) : Except CursorError (Cursor α) := cursor.after stepBackward

/-- The cursor as it is shown to a reader. -/
def describe (cursor : Cursor α) : Text :=
  let chunk :=
    match cursor.chunk? with
    | none => "None".toList
    | some chunk => "Some(".toList ++ Chunk.describe chunk ++ ")".toList
  s!"RopeIndex \x7b position: {cursor.position}, depth: {cursor.depth}, chunk: ".toList ++ chunk ++
    s!", offset: {cursor.offset} \x7d".toList

end Cursor
end GraphemeRope
