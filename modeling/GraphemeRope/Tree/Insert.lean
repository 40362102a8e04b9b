import GraphemeRope.Tree.Build

/-! # Inserting content

Content goes into the chunk that owns the position, which is cut anew. A position between two slots
belongs to the one it ends. Leaves and nodes that overflow are split, up to the root. -/

namespace GraphemeRope
namespace Tree

variable {α ε : Type} [Chunk α ε]

/-- A row of chunks with content put in at a position of it. -/
def insertedChunks (geometry : Geometry) (content : α) : List α → Nat → List α
  | [], _ => Chunk.rechunk [content] geometry.leafLength
  | chunk :: rest, index =>
      if index ≤ Chunk.length chunk || rest.isEmpty then
        Chunk.rechunk [Chunk.take chunk index, content, Chunk.drop chunk index]
          geometry.leafLength ++ rest
      else chunk :: insertedChunks geometry content rest (index - Chunk.length chunk)

mutual

/-- The siblings that replace a tree when content is put in at a position of it. -/
def inserted (geometry : Geometry) (content : α) : Tree α → Nat → List (Tree α)
  | .leaf _ chunks, index => leaves geometry (insertedChunks geometry content chunks index)
  | .node _ children, index => regroup geometry (insertedIn geometry content children index)

/-- A row of trees with content put in at a position of it. A row of no trees takes the content as
an empty leaf does. -/
def insertedIn (geometry : Geometry) (content : α) : List (Tree α) → Nat → List (Tree α)
  | [], _ => leaves geometry (Chunk.rechunk [content] geometry.leafLength)
  | tree :: rest, index =>
      if index ≤ tree.length || rest.isEmpty then tree.inserted geometry content index ++ rest
      else tree :: insertedIn geometry content rest (index - tree.length)

end

/-- The tree with content put in before an element, or after the last one. -/
def insert (geometry : Geometry) (tree : Tree α) (index : Nat) (content : α) :
    Except RopeError (Tree α) :=
  if tree.length < index then .error (.indexOutOfRange index tree.length)
  else if Chunk.isEmpty content then .ok tree
  else .ok (ofSiblings geometry (tree.inserted geometry content index))

end Tree
end GraphemeRope
