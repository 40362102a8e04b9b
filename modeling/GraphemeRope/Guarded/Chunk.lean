import GraphemeRope.Chunk.Grapheme
import GraphemeRope.Chunk.Unit
import GraphemeRope.Fault

/-! # Guarded access to chunks

A chunk of text keeps its text in bytes of UTF-8 and, for each cluster, the byte at which it starts;
clusters are read and cut out by these. Units are read by their offsets. Here each such access is
guarded. Sums of lengths are not, since they are lengths of the same content again. -/

namespace GraphemeRope
namespace Guarded

/-- The entries of a row from `start` up to `stop`, which must be there. -/
def range {β : Type} (row : List β) (start stop : Nat) : Except Fault (List β) :=
  if start ≤ stop ∧ stop ≤ row.length then .ok ((row.take stop).drop start)
  else .error .outOfBounds

/-- The number of bytes of a text. -/
def byteCount (text : Text) : Nat := total (text.map Char.utf8Size)

/-- The text before a byte, at which a character must start or the text end. -/
def takeBytes : Text → Nat → Except Fault Text
  | _, 0 => .ok []
  | [], _ + 1 => .error .outOfBounds
  | c :: rest, count + 1 =>
      if c.utf8Size ≤ count + 1 then do
        let taken ← takeBytes rest (count + 1 - c.utf8Size)
        return c :: taken
      else .error .splitCharacter

/-- The text from a byte on, at which a character must start or the text end. -/
def dropBytes : Text → Nat → Except Fault Text
  | text, 0 => .ok text
  | [], _ + 1 => .error .outOfBounds
  | c :: rest, count + 1 =>
      if c.utf8Size ≤ count + 1 then dropBytes rest (count + 1 - c.utf8Size)
      else .error .splitCharacter

/-- The text between two bytes. -/
def byteRange (text : Text) (start stop : Nat) : Except Fault Text :=
  if stop < start then .error .outOfBounds
  else do
    let rear ← dropBytes text start
    takeBytes rear (stop - start)

/-- The bytes at which clusters start, the first of them at `start`, and the byte after them. -/
def bounds (start : Nat) : List Grapheme → List Nat
  | [] => [start]
  | cluster :: rest => start :: bounds (start + byteCount cluster) rest

/-- The clusters of a text that lie between neighbouring bounds. -/
def clustersBetween (text : Text) : List Nat → Except Fault (List Grapheme)
  | [] => .error .outOfBounds
  | [_] => .ok []
  | start :: stop :: rest => do
      let cluster ← byteRange text start stop
      let clusters ← clustersBetween text (stop :: rest)
      return cluster :: clusters

/-- Numbers counted from a base, none of which may be less. -/
def rebase (base : Nat) : List Nat → Except Fault (List Nat)
  | [] => .ok []
  | number :: rest => do
      let difference ← sub number base
      let differences ← rebase base rest
      return difference :: differences

/-- The pieces of a text, of which the clusters from the byte `offset` on are left and `count` are
done. The last piece so far starts at the byte `start`. -/
def splitFrom [CharacterTable] (text : Text) (limit count offset start : Nat) :
    List Grapheme → Except Fault (List GraphemeChunk)
  | [] =>
      if start < byteCount text then do
        let piece ← byteRange text start (byteCount text)
        return [GraphemeChunk.ofText piece]
      else .ok []
  | cluster :: rest =>
      if 0 < count ∧ count % limit = 0 then do
        let piece ← byteRange text start offset
        let pieces ← splitFrom text limit (count + 1) (offset + byteCount cluster) offset rest
        return GraphemeChunk.ofText piece :: pieces
      else splitFrom text limit (count + 1) (offset + byteCount cluster) start rest

/-- The pieces of a text with at most `limit` clusters each. -/
def split [CharacterTable] (text : Text) (limit : Nat) : Except Fault (List GraphemeChunk) :=
  splitFrom text (max limit 1) 0 0 0 (Cluster.segment text)

/-- Guarded access to chunks of one kind. -/
class Access (α : Type) (ε : outParam Type) where
  /-- The number of elements. Since any chunk can be counted, operations take its length as it is.
  -/
  length : α → Except Fault Nat
  /-- The element at an offset. -/
  read : α → Nat → Except Fault ε
  /-- The chunk of the elements from one offset up to another. -/
  slice : α → Nat → Nat → Except Fault α
  /-- The joined content of a row of chunks, cut into chunks of at most so many elements. -/
  rechunk : List α → Nat → Except Fault (List α)

instance [CharacterTable] : Access GraphemeChunk Grapheme where
  length chunk := sub (bounds 0 chunk.clusters).length 1
  read chunk offset := do
    let start ← get (bounds 0 chunk.clusters) offset
    let stop ← get (bounds 0 chunk.clusters) (offset + 1)
    byteRange chunk.text start stop
  slice chunk start stop := do
    let kept ← range (bounds 0 chunk.clusters) start (stop + 1)
    let base ← get kept 0
    let final ← get kept (← sub kept.length 1)
    let text ← byteRange chunk.text base final
    -- The kept bounds are bytes of the whole text, of which `base` are before the cut one.
    let clusters ← clustersBetween text (← rebase base kept)
    return ⟨clusters⟩
  rechunk parts limit := split (parts.flatMap GraphemeChunk.text) limit

instance : Access UnitChunk UInt16 where
  length chunk := .ok chunk.units.length
  read chunk offset := get chunk.units offset
  slice chunk start stop := do
    let units ← range chunk.units start stop
    return ⟨units⟩
  rechunk parts limit := .ok (Chunk.rechunk parts limit)

end Guarded
end GraphemeRope
