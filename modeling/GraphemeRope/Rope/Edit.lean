import GraphemeRope.Rope.Align
import GraphemeRope.Tree.Insert
import GraphemeRope.Tree.Join

/-! # Editing ropes

Every edit makes a new rope. An edit inside the window rebuilds the window alone; appended text and
insertions elsewhere go into one of the trees; a replacement before the window moves the window to
it. -/

namespace GraphemeRope

/-- Where a range lies relative to the edit window. -/
inductive Placement where
  | inWindow
  | afterWindow
  | beforeWindow
  | acrossWindow
  deriving DecidableEq, Repr

namespace Rope

variable [CharacterTable] (rope : Rope)

/-- The placement of a range. One that touches the window from outside is in it only if it is
empty. -/
def placement (start stop : Nat) : Placement :=
  if rope.windowStart ≤ start && stop ≤ rope.windowStop then .inWindow
  else if rope.windowStop ≤ start then .afterWindow
  else if stop ≤ rope.windowStart then .beforeWindow
  else .acrossWindow

/-- The rope between two trees whose window is the last piece of the joined parts. The pieces before
it go to the end of the left tree. -/
def withWindow (geometry : Geometry) (left : Tree GraphemeChunk) (parts : List GraphemeChunk)
    (right : Tree GraphemeChunk) : Rope :=
  let pieces := Chunk.rechunk parts geometry.leafLength
  let spilled := pieces.dropLast
  { geometry
    left :=
      if spilled.isEmpty then left else left.append geometry (Tree.ofChunks geometry spilled)
    window := pieces.getLast?.getD Chunk.empty
    right }

/-- The rope after an aligned change. -/
def splice (change : Change) : Rope :=
  let geometry := rope.geometry
  let content := GraphemeChunk.ofText change.content
  match rope.placement change.start change.stop with
  | .inWindow =>
      withWindow geometry rope.left
        [Chunk.take rope.window (change.start - rope.windowStart), content,
          Chunk.drop rope.window (change.stop - rope.windowStart)]
        rope.right
  | .afterWindow =>
      { rope with
        right := rope.right.replace geometry (change.start - rope.windowStop)
          (change.stop - rope.windowStop) content }
  | .beforeWindow =>
      let rear :=
        if Chunk.isEmpty rope.window then rope.right
        else (Tree.ofChunks geometry [rope.window]).append geometry rope.right
      withWindow geometry (rope.left.take geometry change.start) [content]
        ((rope.left.drop geometry change.stop).append geometry rear)
  | .acrossWindow =>
      let tail :=
        if change.stop < rope.windowStop then
          Chunk.drop rope.window (change.stop - rope.windowStart)
        else Chunk.empty
      withWindow geometry (rope.left.take geometry (min change.start rope.windowStart))
        [Chunk.take rope.window (change.start - rope.windowStart), content, tail]
        (rope.right.drop geometry (max change.stop rope.windowStop - rope.windowStop))

/-- The chunks of appended text. Empty text still has one chunk, which is empty. -/
def appendedChunks (content : Text) : List GraphemeChunk :=
  match GraphemeChunk.split content rope.geometry.leafLength with
  | [] => [Chunk.empty]
  | chunks => chunks

/-- The rope with a text put at its end. -/
def append (content : Text) : Rope :=
  match rope.widened? ⟨rope.length, rope.length, content⟩ with
  | some wider => rope.splice wider
  | none =>
      if Chunk.isEmpty rope.window && rope.right.isEmpty then
        { rope with left := rope.left.pushAll rope.geometry (rope.appendedChunks content) }
      else { rope with right := rope.right.pushAll rope.geometry (rope.appendedChunks content) }

/-- The rope after an aligned insertion. Outside the window only one chunk of a tree is cut. -/
def spliceInsertion (index : Nat) (content : Text) : Except RopeError Rope :=
  let chunk := GraphemeChunk.ofText content
  match rope.placement index index with
  | .inWindow => .ok (rope.splice ⟨index, index, content⟩)
  | .afterWindow => do
      let right ← rope.right.insert rope.geometry (index - rope.windowStop) chunk
      return { rope with right }
  | .beforeWindow | .acrossWindow => do
      let left ← rope.left.insert rope.geometry index chunk
      return { rope with left }

/-- The rope with a text put in before a cluster, or at the end. -/
def insert (index : Nat) (content : Text) : Except RopeError Rope :=
  if rope.length < index then .error (.indexOutOfRange index rope.length)
  else if content.isEmpty then .ok rope
  else
    match rope.widened? ⟨index, index, content⟩ with
    | some wider => .ok (rope.splice wider)
    | none => rope.spliceInsertion index content

/-- The rope with the clusters from `start` up to `stop` replaced by a text. -/
def replace (start stop : Nat) (content : Text) : Except RopeError Rope :=
  if stop < start || rope.length < stop then .error (.rangeOutOfBounds start stop rope.length)
  else if start = stop && content.isEmpty then .ok rope
  else
    let change : Change := ⟨start, stop, content⟩
    .ok (rope.splice ((rope.widened? change).getD change))

/-- The rope without the clusters from `start` up to `stop`. -/
def remove (start stop : Nat) : Except RopeError Rope := rope.replace start stop []

/-- The rope of a row of texts, appended one after another. -/
def ofTexts (geometry : Geometry) (texts : List Text) : Rope :=
  texts.foldl append (empty geometry)

end Rope
end GraphemeRope
