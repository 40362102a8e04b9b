import GraphemeRope.Fault
import GraphemeRope.Geometry

/-! # Guarded digits

The shift to a digit is computed in the bits of an index, from a height that is given in them too.
No tree comes near a height at which they are too few. Given one, the program stops if it was built
to check its arithmetic, and otherwise goes on with the lowest bits of the shift. -/

namespace GraphemeRope

/-- What becomes of a number that is too great for the bits of an index. -/
inductive Overflow where
  /-- The computation stops with a fault. -/
  | stops
  /-- The lowest bits of the number are kept. -/
  | wraps
  deriving DecidableEq, Repr

namespace Guarded

/-- A number in the bits of an index. -/
def inBits (overflow : Overflow) (fault : Fault) (number : Nat) : Except Fault Nat :=
  if number < 1 <<< Geometry.indexBits then .ok number
  else
    match overflow with
    | .stops => .error fault
    | .wraps => .ok (number % (1 <<< Geometry.indexBits))

/-- The number of index bits below the slot digit of a node of the given height. -/
def slotShift (overflow : Overflow) (geometry : Geometry) (height : Nat) : Except Fault Nat := do
  let levels ← inBits overflow .productOverflow (geometry.branchingBits * height)
  inBits overflow .sumOverflow (geometry.leafBits + levels)

/-- The number of elements of a full tree of the given height, capped at the greatest index. -/
def capacity (overflow : Overflow) (geometry : Geometry) (height : Nat) : Except Fault Nat := do
  let above ← inBits overflow .sumOverflow (height + 1)
  let shift ← slotShift overflow geometry above
  return if shift < Geometry.indexBits then 1 <<< shift else (1 <<< Geometry.indexBits) - 1

/-- The digit of an index that selects a slot of a dense node of the given height. -/
def slot (overflow : Overflow) (geometry : Geometry) (index height : Nat) : Except Fault Nat := do
  let shift ← slotShift overflow geometry height
  return if shift < Geometry.indexBits then (index >>> shift) % geometry.branching else 0

end Guarded
end GraphemeRope
