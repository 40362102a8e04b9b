/-! # Refusals

The causes for which an operation on a rope is refused, and their wording. -/

namespace GraphemeRope

/-- Why an operation on a rope is refused. -/
inductive RopeError where
  /-- A position lies outside a sequence of the given length. -/
  | indexOutOfRange (index length : Nat)
  /-- A range is reversed or ends past a sequence of the given length. -/
  | rangeOutOfBounds (start stop length : Nat)
  /-- A bit width of a geometry lies outside one to eight. -/
  | invalidGeometry (branchingBits leafBits : Nat)
  deriving DecidableEq, Repr

/-- The sentence that reports a refusal. -/
def RopeError.message : RopeError → String
  | .indexOutOfRange index length => s!"index {index} is out of range for length {length}"
  | .rangeOutOfBounds start stop length =>
      s!"range {start}..{stop} is out of bounds for length {length}"
  | .invalidGeometry branchingBits leafBits =>
      s!"invalid geometry {branchingBits}/{leafBits}: bit widths must be in 1..=8"

end GraphemeRope
