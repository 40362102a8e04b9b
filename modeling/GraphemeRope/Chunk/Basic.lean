import GraphemeRope.Row
import GraphemeRope.Unicode.Cluster

/-! # Chunks

A chunk is a bounded run of content that a leaf of a tree holds. Trees and cursors know of a chunk
only its elements, how to cut it and how to cut a row of chunks anew. -/

namespace GraphemeRope

/-- A run of content with elements of type `ε`. -/
class Chunk (α : Type) (ε : outParam Type) where
  /-- The elements in order. -/
  elements : α → List ε
  /-- The chunk without elements. -/
  empty : α
  /-- The chunk of the first elements, as many as there are up to a count. -/
  take : α → Nat → α
  /-- The chunk of the elements after a count of them. -/
  drop : α → Nat → α
  /-- The joined content of a row of chunks, cut into chunks of at most so many elements. -/
  rechunk : List α → Nat → List α
  /-- The chunk as it is shown to a reader. -/
  describe : α → Text

namespace Chunk

variable {α ε : Type} [Chunk α ε]

/-- The number of elements. -/
def length (chunk : α) : Nat := (elements chunk).length

/-- Whether there are no elements. -/
def isEmpty (chunk : α) : Bool := length chunk = 0

/-- The element at an offset. -/
def element? (chunk : α) (offset : Nat) : Option ε := (elements chunk)[offset]?

/-- The chunk of the elements from `start` up to `stop`. -/
def slice (chunk : α) (start stop : Nat) : α := drop (take chunk stop) start

end Chunk
end GraphemeRope
