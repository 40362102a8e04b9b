import GraphemeRope.Guarded.Chunk
import GraphemeRope.Tree.Cut
import GraphemeRope.Tree.Insert
import GraphemeRope.Tree.Join
import GraphemeRope.Tree.Lookup

/-! # Guarded operations of trees

Lookups, insertions and cuts, in which slots, chunks and differences of positions are guarded. What
builds and joins trees takes rows apart without naming slots, and groups them by the number of slots
of a geometry, which is never zero; so nothing is guarded there. -/

namespace GraphemeRope
namespace Guarded

variable {α ε : Type} [Chunk α ε] [Access α ε]

/-- The slot of a row that an index lies in, and the number of elements before that slot. Slots are
counted from `slot` on, and `before` elements are before them. -/
def owningSlot (slot before index : Nat) : List Nat → Nat × Nat
  | [] => (slot, before)
  | length :: rest =>
      if index < before + length then (slot, before)
      else owningSlot (slot + 1) (before + length) index rest

mutual

/-- The element at an index, found by adding up lengths. -/
def scan : Tree α → Nat → Except Fault ε
  | .leaf _ chunks, index => do
      let owner := owningSlot 0 0 index (chunks.map Chunk.length)
      let offset ← sub index owner.2
      let chunk ← get chunks owner.1
      Access.read chunk offset
  | .node _ children, index => do
      let owner := owningSlot 0 0 index (children.map Tree.length)
      let inner ← sub index owner.2
      scanIn children owner.1 inner

/-- The element at an index of the tree in a slot of a row. -/
def scanIn : List (Tree α) → Nat → Nat → Except Fault ε
  | [], _, _ => .error .outOfBounds
  | tree :: _, 0, index => scan tree index
  | _ :: rest, slot + 1, index => scanIn rest slot index

end

mutual

/-- The element whose path is spelled by the digits of an index. -/
def followDigits (geometry : Geometry) : Tree α → Nat → Except Fault ε
  | .leaf _ chunks, index => do
      let chunk ← get chunks (geometry.slot index 0)
      Access.read chunk (geometry.leafOffset index)
  | .node measure children, index =>
      followDigitsIn geometry children (geometry.slot index measure.height) index

/-- The element whose path, from a slot of a row on, is spelled by the digits of an index. -/
def followDigitsIn (geometry : Geometry) : List (Tree α) → Nat → Nat → Except Fault ε
  | [], _, _ => .error .outOfBounds
  | tree :: _, 0, index => followDigits geometry tree index
  | _ :: rest, slot + 1, index => followDigitsIn geometry rest slot index

end

/-- The element at an index, which is refused past the end. -/
def lookup (tree : Tree α) (index : Nat) (search : Tree α → Nat → Except Fault ε) :
    Except Fault (Except RopeError ε) :=
  if tree.length ≤ index then .ok (.error (.indexOutOfRange index tree.length))
  else do
    let element ← search tree index
    return .ok element

/-- The element at an index, found by its digits where the tree is dense and by scanning where it is
not. -/
def treeElementAt (geometry : Geometry) (tree : Tree α) (index : Nat) :
    Except Fault (Except RopeError ε) :=
  lookup tree index (if tree.isDense then followDigits geometry else scan)

/-- The slot of a row that takes content put in at an index, and the number of elements before that
slot. An index between two slots belongs to the one it ends, and none is past the `last` slot. -/
def takingSlot (last slot before index : Nat) : List Nat → Nat × Nat
  -- Not reached in a row with slots, the last of which takes what no other does.
  | [] => (0, 0)
  | length :: rest =>
      if index ≤ before + length ∨ slot = last then (slot, before)
      else takingSlot last (slot + 1) (before + length) index rest

/-- A row of chunks with content put in at a position of it. -/
def insertedChunks (geometry : Geometry) (content : α) (chunks : List α) (index : Nat) :
    Except Fault (List α) :=
  if chunks.isEmpty then Access.rechunk [content] geometry.leafLength
  else do
    let taker := takingSlot (chunks.length - 1) 0 0 index (chunks.map Chunk.length)
    let target ← get chunks taker.1
    let offset ← sub index taker.2
    let head ← Access.slice target 0 offset
    let tail ← Access.slice target offset (Chunk.length target)
    let front ← range chunks 0 taker.1
    let pieces ← Access.rechunk [head, content, tail] geometry.leafLength
    let rear ← range chunks (taker.1 + 1) chunks.length
    return front ++ pieces ++ rear

mutual

/-- The siblings that replace a tree when content is put in at a position of it. -/
def inserted (geometry : Geometry) (content : α) : Tree α → Nat → Except Fault (List (Tree α))
  | .leaf _ chunks, index => do
      let chunks ← insertedChunks geometry content chunks index
      return Tree.leaves geometry chunks
  | .node _ children, index => do
      let taker := takingSlot (children.length - 1) 0 0 index (children.map Tree.length)
      let front ← range children 0 taker.1
      let inner ← sub index taker.2
      let siblings ← insertedIn geometry content children taker.1 inner
      let rear ← range children (taker.1 + 1) children.length
      return Tree.regroup geometry (front ++ siblings ++ rear)

/-- The siblings that replace the tree in a slot of a row when content is put in there. -/
def insertedIn (geometry : Geometry) (content : α) :
    List (Tree α) → Nat → Nat → Except Fault (List (Tree α))
  | [], _, _ => .error .outOfBounds
  | tree :: _, 0, index => inserted geometry content tree index
  | _ :: rest, slot + 1, index => insertedIn geometry content rest slot index

end

/-- The tree with content put in before an element, or after the last one. -/
def insertTree (geometry : Geometry) (tree : Tree α) (index : Nat) (content : α) :
    Except Fault (Except RopeError (Tree α)) :=
  if tree.length < index then .ok (.error (.indexOutOfRange index tree.length))
  else if Chunk.isEmpty content then .ok (.ok tree)
  else do
    let siblings ← inserted geometry content tree index
    return .ok (Tree.ofSiblings geometry siblings)

/-- The chunks that hold the first `count` elements of a row, `before` of which are in chunks that
are kept already. -/
def chunksBefore (count before : Nat) : List α → Except Fault (List α)
  | [] => .ok []
  | chunk :: rest =>
      if count ≤ before then .ok []
      else do
        let left ← sub count before
        let taken := min left (Chunk.length chunk)
        let first ← if taken = Chunk.length chunk then .ok chunk else Access.slice chunk 0 taken
        let others ← chunksBefore count (before + Chunk.length chunk) rest
        return first :: others

/-- The chunks that hold the elements of a row from `start` on, `before` of which are in chunks that
were passed already. -/
def chunksFrom (start before : Nat) : List α → Except Fault (List α)
  | [] => .ok []
  | chunk :: rest =>
      if start < before + Chunk.length chunk then do
        let first ←
          -- Cut off at zero, since later chunks lie behind `start` as a whole.
          if start - before = 0 then .ok chunk
          else Access.slice chunk (start - before) (Chunk.length chunk)
        let others ← chunksFrom start (before + Chunk.length chunk) rest
        return first :: others
      else chunksFrom start (before + Chunk.length chunk) rest

mutual

/-- The tree of the first `count` elements, if any tree is left. -/
def before? (geometry : Geometry) : Tree α → Nat → Except Fault (Option (Tree α))
  | .leaf measure chunks, count =>
      if measure.length ≤ count then .ok (some (.leaf measure chunks))
      else if count = 0 then .ok none
      else do
        let kept ← chunksBefore count 0 chunks
        return some (Tree.makeLeaf geometry kept)
  | .node measure children, count =>
      if measure.length ≤ count then .ok (some (.node measure children))
      else if count = 0 then .ok none
      else do
        let kept ← treesBefore geometry count 0 children
        return some (Tree.makeNode geometry kept)

/-- The trees that hold the first `count` elements of a row, `before` of which are in trees that are
kept already. -/
def treesBefore (geometry : Geometry) (count before : Nat) :
    List (Tree α) → Except Fault (List (Tree α))
  | [] => .ok []
  | tree :: rest =>
      if count ≤ before then .ok []
      else do
        let left ← sub count before
        let first? ← before? geometry tree left
        let others ← treesBefore geometry count (before + tree.length) rest
        return first?.toList ++ others

end

mutual

/-- The tree of the elements from `start` on, if any tree is left. -/
def from? (geometry : Geometry) : Tree α → Nat → Except Fault (Option (Tree α))
  | .leaf measure chunks, start =>
      if start = 0 then .ok (some (.leaf measure chunks))
      else if measure.length ≤ start then .ok none
      else do
        let kept ← chunksFrom start 0 chunks
        return some (Tree.makeLeaf geometry kept)
  | .node measure children, start =>
      if start = 0 then .ok (some (.node measure children))
      else if measure.length ≤ start then .ok none
      else do
        let kept ← treesFrom geometry start 0 children
        return some (Tree.makeNode geometry kept)

/-- The trees that hold the elements of a row from `start` on, `before` of which are in trees that
were passed already. -/
def treesFrom (geometry : Geometry) (start before : Nat) :
    List (Tree α) → Except Fault (List (Tree α))
  | [] => .ok []
  | tree :: rest =>
      if start < before + tree.length then do
        let first? ← from? geometry tree (start - before)
        let others ← treesFrom geometry start (before + tree.length) rest
        return first?.toList ++ others
      else treesFrom geometry start (before + tree.length) rest

end

/-- The tree of the first `count` elements. -/
def takeTree (geometry : Geometry) (tree : Tree α) (count : Nat) : Except Fault (Tree α) := do
  let kept? ← before? geometry tree count
  return (kept?.getD Tree.empty).collapse

/-- The tree of the elements from `start` on. -/
def dropTree (geometry : Geometry) (tree : Tree α) (start : Nat) : Except Fault (Tree α) := do
  let kept? ← from? geometry tree start
  return (kept?.getD Tree.empty).collapse

/-- The tree with the elements from `start` up to `stop` replaced by content. -/
def replaceTree (geometry : Geometry) (tree : Tree α) (start stop : Nat) (content : α) :
    Except Fault (Tree α) := do
  let head ← takeTree geometry tree start
  let pieces ← Access.rechunk [content] geometry.leafLength
  let tail ← dropTree geometry tree stop
  let middle := Tree.ofChunks geometry pieces
  return (Tree.append geometry (Tree.append geometry head middle) tail).collapse

end Guarded
end GraphemeRope
