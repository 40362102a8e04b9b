import GraphemeRope.Fault
import GraphemeRope.Tree.Basic

/-! # Filled slots

A walk through a tree passes over slots without elements. It looks for the next filled slot in its
direction, among the slots of a leaf or a node as among the roots of a forest. -/

namespace GraphemeRope

/-- Whether a walk goes to the right or to the left. -/
inductive Direction where
  | forward
  | backward
  deriving DecidableEq, Repr

/-- The first filled slot of a row, whose lengths are those of the slots from `slot` on. -/
def filledFrom (slot : Nat) : List Nat → Option Nat
  | [] => none
  | length :: rest => if 0 < length then some slot else filledFrom (slot + 1) rest

/-- The last filled slot of a row before a slot. The slots before it must be there. -/
def filledBefore (lengths : List Nat) : Nat → Except Fault (Option Nat)
  | 0 => .ok none
  | slot + 1 => do
      let length ← Guarded.get lengths slot
      if 0 < length then return some slot else filledBefore lengths slot

namespace Direction

/-- The filled slot next to a slot of a row, if there is one in this direction. -/
def beyond (lengths : List Nat) (slot : Nat) : Direction → Except Fault (Option Nat)
  | .forward => .ok (filledFrom (slot + 1) (lengths.drop (slot + 1)))
  | .backward => filledBefore lengths slot

/-- The filled slot of a row that a walk in this direction meets first. -/
def nearest (lengths : List Nat) : Direction → Except Fault (Option Nat)
  | .forward => .ok (filledFrom 0 lengths)
  | .backward => filledBefore lengths lengths.length

end Direction

/-- The lengths of the slots of a leaf or a node. -/
def Tree.slotLengths {α ε : Type} [Chunk α ε] : Tree α → List Nat
  | .leaf _ chunks => chunks.map Chunk.length
  | .node _ children => children.map Tree.length

end GraphemeRope
