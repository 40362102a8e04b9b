import GraphemeRope.Chunk.Grapheme
import GraphemeRope.Cursor.Span
import GraphemeRope.Tree.Build
import GraphemeRope.Tree.Lookup

/-! # Ropes

A rope holds a text by its clusters in three regions: a tree of what is before the edit window, the
window itself, and a tree of what is after it. The window is one chunk, where edits are cheap. -/

namespace GraphemeRope

/-- The text of all chunks of a tree. -/
def Tree.text (tree : Tree GraphemeChunk) : Text := tree.chunks.flatMap GraphemeChunk.text

/-- A text around an edit window. -/
structure Rope where
  geometry : Geometry
  left : Tree GraphemeChunk
  window : GraphemeChunk
  right : Tree GraphemeChunk

namespace Rope

/-- The height of the highest tree. -/
def depth (rope : Rope) : Nat := max rope.left.height rope.right.height

/-- The position of the first cluster of the window. -/
def windowStart (rope : Rope) : Nat := rope.left.length

/-- The text. -/
def text (rope : Rope) : Text := rope.left.text ++ rope.window.text ++ rope.right.text

variable [CharacterTable]

/-- The rope of no text. -/
def empty (geometry : Geometry) : Rope := ⟨geometry, Tree.empty, Chunk.empty, Tree.empty⟩

/-- The rope of a text, all of which is before the edit window. -/
def ofText (geometry : Geometry) (text : Text) : Rope :=
  { empty geometry with
    left := Tree.ofChunks geometry (GraphemeChunk.split text geometry.leafLength) }

variable (rope : Rope)

/-- The three regions as a forest, the window as a leaf of one chunk. -/
def forest : List (Tree GraphemeChunk) :=
  [rope.left, Tree.makeLeaf rope.geometry [rope.window], rope.right]

/-- The position after the last cluster of the window. -/
def windowStop : Nat := rope.windowStart + Chunk.length rope.window

/-- The number of clusters. -/
def length : Nat := rope.windowStop + rope.right.length

/-- Whether the rope holds no text. -/
def isEmpty : Bool := rope.length = 0

/-- The clusters in order. -/
def elements : List Grapheme := rope.left.elements ++ rope.window.clusters ++ rope.right.elements

/-- The cluster at a position. -/
def element (index : Nat) : Except RopeError Grapheme :=
  if rope.length ≤ index then .error (.indexOutOfRange index rope.length)
  else if index < rope.windowStart then rope.left.elementAt rope.geometry index
  else if index < rope.windowStop then
    match Chunk.element? rope.window (index - rope.windowStart) with
    | some cluster => .ok cluster
    | none => .error (.indexOutOfRange index rope.length)
  else rope.right.elementAt rope.geometry (index - rope.windowStop)

/-- The cursor at the first cluster. -/
def startCursor : Cursor GraphemeChunk := Cursor.atStart rope.forest

/-- The cursor after the last cluster. -/
def endCursor : Cursor GraphemeChunk := Cursor.atEnd rope.forest

/-- The cursor at a position, which is refused past the end. -/
def cursorAt (position : Nat) : Except RopeError (Cursor GraphemeChunk) :=
  Cursor.ofPosition rope.forest position

/-- All clusters, to be consumed from both ends. -/
def span : Span GraphemeChunk := ⟨rope.startCursor, rope.endCursor⟩

/-- Two ropes are the same if they are of one length and show the same clusters one after another,
however they are laid out. -/
instance : BEq Rope :=
  ⟨fun first second =>
    first.length == second.length && first.span.toList == second.span.toList⟩

/-- The rope as it is shown to a reader. -/
def describe : Text :=
  s!"Rope \x7b len: {rope.length}, edit_offset: {rope.windowStart}, ".toList ++
    s!"right_offset: {rope.windowStop}, depth: {rope.depth}, text: ".toList ++
    Quoted.delimited rope.text ++ " \x7d".toList

end Rope
end GraphemeRope
