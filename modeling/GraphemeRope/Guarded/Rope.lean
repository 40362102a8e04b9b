import GraphemeRope.Guarded.Tree
import GraphemeRope.Script.Basic

/-! # Guarded operations of ropes

Lookups and edits of ropes, in which differences of positions, cuts of the window, bytes of texts
and operations of trees are guarded. Where a cluster that should be there is missing, that is a
fault, too. -/

namespace GraphemeRope
namespace Guarded

variable [CharacterTable] (rope : Rope)

/-- The cluster at a position. -/
def element (index : Nat) : Except Fault (Except RopeError Grapheme) :=
  if rope.length ≤ index then .ok (.error (.indexOutOfRange index rope.length))
  else if index < rope.windowStart then treeElementAt rope.geometry rope.left index
  else if index < rope.windowStop then do
    let offset ← sub index rope.windowStart
    let cluster ← Access.read rope.window offset
    return .ok cluster
  else do
    let offset ← sub index rope.windowStop
    treeElementAt rope.geometry rope.right offset

/-- The cursor at a position, which is refused past the end. -/
def cursorAt (position : Nat) : Except Fault (Except RopeError (Cursor GraphemeChunk)) :=
  if forestLength rope.forest < position then
    .ok (.error (.indexOutOfRange position (forestLength rope.forest)))
  else do
    let cursor ← Cursor.locateFrom rope.forest position 0 0 rope.forest
    return .ok cursor

/-- The cluster at a position, which must be there. -/
def presentElement (index : Nat) : Except Fault Grapheme := do
  match ← element rope index with
  | .ok cluster => .ok cluster
  | .error _ => .error .unreachable

/-- The cluster before a position, empty at the start. -/
def clusterBefore (position : Nat) : Except Fault Text :=
  if position = 0 then .ok []
  else do
    let index ← sub position 1
    presentElement rope index

/-- The cluster at a position, empty at the end. -/
def clusterFrom (position : Nat) : Except Fault Text :=
  if position < rope.length then presentElement rope position else .ok []

/-- Whether a text holds together at a byte with the neighbour that begins or ends there. -/
def joinsAt (neighbour text : Text) (byte : Nat) : Except Fault Bool :=
  if neighbour.isEmpty then .ok false
  else do
    let front ← takeBytes text byte
    let rear ← dropBytes text byte
    return !Cluster.isBoundary front rear

/-- The change with the neighbours drawn in that its content holds together with, if there is one.
-/
def widenOnce (change : Change) : Except Fault (Option Change) := do
  let before ← clusterBefore rope change.start
  let after ← clusterFrom rope change.stop
  let joined := before ++ (change.content ++ after)
  let head := byteCount before
  let tail := byteCount before + byteCount change.content
  let growStart ← joinsAt before joined head
  let growStop ← joinsAt after joined tail
  if !growStart && !growStop then return none
  let start ← sub change.start growStart.toNat
  let content ← byteRange joined (if growStart then 0 else head)
    (if growStop then byteCount joined else tail)
  return some ⟨start, change.stop + growStop.toNat, content⟩

/-- Only a cluster that has text can join what is put in beside it. -/
theorem neighbour_ne_nil {neighbour text : Text} {byte : Nat}
    (joins : joinsAt neighbour text byte = .ok true) : neighbour ≠ [] := by
  rintro rfl
  cases joins

variable {rope}

/-- Nothing joins a change on the left at the start of the rope. -/
theorem start_pos_of_joinsAt {position byte : Nat} {before text : Text}
    (neighbour : clusterBefore rope position = .ok before)
    (joins : joinsAt before text byte = .ok true) : 0 < position := by
  rcases Nat.eq_zero_or_pos position with rfl | positive
  · cases neighbour
    exact absurd rfl (neighbour_ne_nil joins)
  · exact positive

/-- Nothing joins a change on the right at the end of the rope. -/
theorem stop_lt_of_joinsAt {position byte : Nat} {after text : Text}
    (neighbour : clusterFrom rope position = .ok after)
    (joins : joinsAt after text byte = .ok true) : position < rope.length := by
  by_cases inside : position < rope.length
  · exact inside
  · rw [clusterFrom, if_neg inside] at neighbour
    cases neighbour
    exact absurd rfl (neighbour_ne_nil joins)

/-- Widening a change leaves less of the rope outside it. -/
theorem outside_lt_of_widenOnce {change wider : Change}
    (widened : widenOnce rope change = .ok (some wider)) :
    wider.start + (rope.length - wider.stop) < change.start + (rope.length - change.stop) := by
  obtain ⟨before, before_eq, widened⟩ := exists_of_bind widened
  obtain ⟨after, after_eq, widened⟩ := exists_of_bind widened
  obtain ⟨growStart, start_joins, widened⟩ := exists_of_bind widened
  obtain ⟨growStop, stop_joins, widened⟩ := exists_of_bind widened
  split at widened
  · cases widened
  · next joined =>
      obtain ⟨start, start_eq, widened⟩ := exists_of_bind widened
      obtain ⟨content, _, widened⟩ := exists_of_bind widened
      obtain ⟨_, rfl⟩ := le_of_sub start_eq
      cases widened
      cases growStart with
      | false =>
          cases growStop with
          | false => exact absurd rfl joined
          | true =>
              have inside := stop_lt_of_joinsAt after_eq stop_joins
              simp only [Bool.toNat_false, Bool.toNat_true]
              omega
      | true =>
          have positive := start_pos_of_joinsAt before_eq start_joins
          simp only [Bool.toNat_true]
          omega

variable (rope)

/-- The change widened until it is aligned, or nothing if it was so from the start and has not
`grown` before. -/
def alignFrom (change : Change) (grown : Bool) : Except Fault (Option Change) :=
  match _widened : widenOnce rope change with
  | .error fault => .error fault
  | .ok none => .ok (if grown then some change else none)
  | .ok (some wider) => alignFrom wider true
termination_by change.start + (rope.length - change.stop)
decreasing_by exact outside_lt_of_widenOnce _widened

/-- The change widened until it is aligned, or nothing if it is so from the start. -/
def align (change : Change) : Except Fault (Option Change) := alignFrom rope change false

/-- The rope between two trees whose window is the last piece of the joined parts. The pieces before
it go to the end of the left tree. -/
def withWindow (geometry : Geometry) (left : Tree GraphemeChunk) (parts : List GraphemeChunk)
    (right : Tree GraphemeChunk) : Except Fault Rope := do
  let pieces ← Access.rechunk parts geometry.leafLength
  let spilled := pieces.dropLast
  let window := pieces.getLast?.getD Chunk.empty
  if spilled.isEmpty then return ⟨geometry, left, window, right⟩
  else return ⟨geometry, left.append geometry (Tree.ofChunks geometry spilled), window, right⟩

/-- The rope after an aligned change. -/
def splice (change : Change) : Except Fault Rope := do
  let geometry := rope.geometry
  let content := GraphemeChunk.ofText change.content
  let width := Chunk.length rope.window
  match rope.placement change.start change.stop with
  | .inWindow =>
      let head ← Access.slice rope.window 0 (← sub change.start rope.windowStart)
      let tail ← Access.slice rope.window (← sub change.stop rope.windowStart) width
      withWindow geometry rope.left [head, content, tail] rope.right
  | .afterWindow =>
      let start ← sub change.start rope.windowStop
      let stop ← sub change.stop rope.windowStop
      let right ← replaceTree geometry rope.right start stop content
      return { rope with right }
  | .beforeWindow =>
      let rear :=
        if Chunk.isEmpty rope.window then rope.right
        else (Tree.ofChunks geometry [rope.window]).append geometry rope.right
      let middle ← dropTree geometry rope.left change.stop
      let left ← takeTree geometry rope.left change.start
      withWindow geometry left [content] (middle.append geometry rear)
  | .acrossWindow =>
      let left ← takeTree geometry rope.left (min change.start rope.windowStart)
      let passed ← sub (max change.stop rope.windowStop) rope.windowStop
      let right ← dropTree geometry rope.right passed
      -- Cut off at zero: of a window behind the start no head is left.
      let head ← Access.slice rope.window 0 (change.start - rope.windowStart)
      let tail ←
        if change.stop < rope.windowStop then do
          Access.slice rope.window (← sub change.stop rope.windowStart) width
        else .ok Chunk.empty
      withWindow geometry left [head, content, tail] right

/-- The rope with a text put at its end. -/
def append (content : Text) : Except Fault Rope := do
  match ← align rope ⟨rope.length, rope.length, content⟩ with
  | some wider => splice rope wider
  | none =>
      let pieces ← split content rope.geometry.leafLength
      let chunks := if pieces.isEmpty then [Chunk.empty] else pieces
      if Chunk.isEmpty rope.window && rope.right.isEmpty then
        return { rope with left := rope.left.pushAll rope.geometry chunks }
      else return { rope with right := rope.right.pushAll rope.geometry chunks }

/-- The rope after an aligned insertion. Outside the window only one chunk of a tree is cut. -/
def spliceInsertion (index : Nat) (content : Text) : Except Fault (Except RopeError Rope) := do
  let chunk := GraphemeChunk.ofText content
  match rope.placement index index with
  | .inWindow =>
      let offset ← sub index rope.windowStart
      let head ← Access.slice rope.window 0 offset
      let tail ← Access.slice rope.window offset (Chunk.length rope.window)
      let changed ← withWindow rope.geometry rope.left [head, chunk, tail] rope.right
      return .ok changed
  | .afterWindow =>
      let offset ← sub index rope.windowStop
      let right ← insertTree rope.geometry rope.right offset chunk
      return right.map fun right => { rope with right }
  | .beforeWindow | .acrossWindow =>
      let left ← insertTree rope.geometry rope.left index chunk
      return left.map fun left => { rope with left }

/-- The rope with a text put in before a cluster, or at the end. -/
def insert (index : Nat) (content : Text) : Except Fault (Except RopeError Rope) :=
  if rope.length < index then .ok (.error (.indexOutOfRange index rope.length))
  else if content.isEmpty then .ok (.ok rope)
  else do
    match ← align rope ⟨index, index, content⟩ with
    | some wider => return .ok (← splice rope wider)
    | none => spliceInsertion rope index content

/-- The rope with the clusters from `start` up to `stop` replaced by a text. -/
def replace (start stop : Nat) (content : Text) : Except Fault (Except RopeError Rope) :=
  if stop < start || rope.length < stop then
    .ok (.error (.rangeOutOfBounds start stop rope.length))
  else if start = stop && content.isEmpty then .ok (.ok rope)
  else do
    let change : Change := ⟨start, stop, content⟩
    let widened? ← align rope change
    return .ok (← splice rope (widened?.getD change))

/-- The rope after an edit. -/
def apply : Edit → Except Fault (Except RopeError Rope)
  | .append content => do return .ok (← append rope content)
  | .insert index content => insert rope index content
  | .replace start stop content => replace rope start stop content
  | .remove start stop => replace rope start stop []

end Guarded
end GraphemeRope
