import GraphemeRope.Tree.Slot

/-! # Places in a tree

A place is an element of a tree together with the way down to it. It is found by adding up the
lengths of slots, or from a place beside it by climbing no further than needed and going down again
along the near edge. Empty chunks and trees are passed over. -/

namespace GraphemeRope

/-- An element of a tree: the trees and slots on the way down to it, the nearest first, its chunk,
and its offset in the chunk. -/
structure Place (α : Type) where
  path : List (Tree α × Nat)
  chunk : α
  offset : Nat

namespace Place

variable {α ε : Type} [Chunk α ε]

/-- The place of the element at an index of a row of chunks, which fill the slots of a leaf from
`slot` on. -/
def inChunks (path : List (Tree α × Nat)) (leaf : Tree α) (slot : Nat) :
    List α → Nat → Except Fault (Place α)
  | [], _ => .error .outOfBounds
  | chunk :: rest, index =>
      if index < Chunk.length chunk then .ok ⟨(leaf, slot) :: path, chunk, index⟩
      else inChunks path leaf (slot + 1) rest (index - Chunk.length chunk)

mutual

/-- The place of the element at an index of a tree that lies at the end of a path. -/
def descend (path : List (Tree α × Nat)) : Tree α → Nat → Except Fault (Place α)
  | .leaf measure chunks, index => inChunks path (.leaf measure chunks) 0 chunks index
  | .node measure children, index => descendIn path (.node measure children) 0 children index

/-- The place of the element at an index of a row of trees, which fill the slots of a node from
`slot` on. -/
def descendIn (path : List (Tree α × Nat)) (node : Tree α) (slot : Nat) :
    List (Tree α) → Nat → Except Fault (Place α)
  | [], _ => .error .outOfBounds
  | tree :: rest, index =>
      if index < tree.length then descend ((node, slot) :: path) tree index
      else descendIn path node (slot + 1) rest (index - tree.length)

end

/-- The offset in a chunk that a walk in this direction meets first. -/
def edgeOffset (chunk : α) : Direction → Except Fault Nat
  | .forward => .ok 0
  | .backward => Guarded.sub (Chunk.length chunk) 1

mutual

/-- The place in a slot of a tree that a walk in this direction meets first. -/
def enter (direction : Direction) (path : List (Tree α × Nat)) :
    Tree α → Nat → Except Fault (Place α)
  | .leaf measure chunks, slot => do
      let chunk ← Guarded.get chunks slot
      let offset ← edgeOffset chunk direction
      return ⟨(.leaf measure chunks, slot) :: path, chunk, offset⟩
  | .node measure children, slot =>
      enterIn direction ((.node measure children, slot) :: path) children slot

/-- The place that a walk in this direction meets first in one of a row of trees, which lie at the
end of a path. -/
def enterIn (direction : Direction) (path : List (Tree α × Nat)) :
    List (Tree α) → Nat → Except Fault (Place α)
  | [], _ => .error .outOfBounds
  | tree :: _, 0 => do
      match ← direction.nearest tree.slotLengths with
      | some slot => enter direction path tree slot
      | none => .error .unreachable
  | _ :: rest, slot + 1 => enterIn direction path rest slot

end

/-- The place beside a way down, found by climbing it until there is a filled slot in this
direction. -/
def climb (direction : Direction) : List (Tree α × Nat) → Except Fault (Option (Place α))
  | [] => .ok none
  | (tree, slot) :: path => do
      match ← direction.beyond tree.slotLengths slot with
      | some next => return some (← enter direction path tree next)
      | none => climb direction path

/-- The place in a tree that a walk in this direction meets first, if a slot of it is filled. -/
def edge (direction : Direction) (tree : Tree α) : Except Fault (Option (Place α)) := do
  match ← direction.nearest tree.slotLengths with
  | some slot => return some (← enter direction [] tree slot)
  | none => return none

end Place
end GraphemeRope
