import GraphemeRope.Error

/-! # Geometry of the trees

A geometry fixes how many slots a tree node has and how many elements a chunk holds, both as powers
of two. In a tree filled to that shape, the bits of an index spell the path to its element. -/

namespace GraphemeRope

/-- Bit widths of the slots of a node and of the elements of a chunk, each from one to eight. -/
structure Geometry where
  branchingBits : Nat
  leafBits : Nat
  branchingBits_valid : 1 ≤ branchingBits ∧ branchingBits ≤ 8
  leafBits_valid : 1 ≤ leafBits ∧ leafBits ≤ 8
  deriving DecidableEq

namespace Geometry

/-- The geometry of the given bit widths, refused unless both lie in one to eight. -/
def ofBits (branchingBits leafBits : Nat) : Except RopeError Geometry :=
  if valid : (1 ≤ branchingBits ∧ branchingBits ≤ 8) ∧ (1 ≤ leafBits ∧ leafBits ≤ 8) then
    .ok ⟨branchingBits, leafBits, valid.1, valid.2⟩
  else
    .error (.invalidGeometry branchingBits leafBits)

/-- The geometry used where none is named: 32 slots and 64 elements. -/
def standard : Geometry where
  branchingBits := 5
  leafBits := 6
  branchingBits_valid := by decide
  leafBits_valid := by decide

instance : Inhabited Geometry := ⟨standard⟩

variable (geometry : Geometry)

/-- The greatest number of slots of one node. -/
def branching : Nat := 1 <<< geometry.branchingBits

/-- The greatest number of elements of one chunk, and of the edit window. -/
def leafLength : Nat := 1 <<< geometry.leafBits

/-- The width of an index in bits. -/
def indexBits : Nat := 64

/-- The number of index bits below the slot digit of a node of the given height, however many. The
heights of trees leave it within the bits of an index. -/
def slotShift (height : Nat) : Nat := geometry.leafBits + geometry.branchingBits * height

/-- The number of elements of a full tree of the given height, capped at the greatest index. -/
def capacity (height : Nat) : Nat :=
  if geometry.slotShift (height + 1) < indexBits then 1 <<< geometry.slotShift (height + 1)
  else (1 <<< indexBits) - 1

/-- The digit of an index that selects a slot of a dense node of the given height. -/
def slot (index height : Nat) : Nat :=
  if geometry.slotShift height < indexBits then
    (index >>> geometry.slotShift height) % geometry.branching
  else 0

/-- The lowest digit of an index, which selects an element of a chunk. -/
def leafOffset (index : Nat) : Nat := index % geometry.leafLength

/-- Widths taken from a geometry are not refused. -/
theorem ofBits_valid : ofBits geometry.branchingBits geometry.leafBits = .ok geometry :=
  dif_pos ⟨geometry.branchingBits_valid, geometry.leafBits_valid⟩

theorem two_le_branching : 2 ≤ geometry.branching := by
  have base : 2 ^ 1 ≤ 2 ^ geometry.branchingBits :=
    Nat.pow_le_pow_right (by decide) geometry.branchingBits_valid.1
  simpa only [branching, Nat.one_shiftLeft, Nat.pow_one] using base

end Geometry
end GraphemeRope
