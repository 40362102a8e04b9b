import GraphemeRope.Cursor.Basic

/-! # Comparing cursors

Cursors are ordered by position. Two cursors at one position are the same if they stand at the same
offset of equal chunks, whatever the trees; if not, they are not ordered. -/

namespace GraphemeRope
namespace Cursor

variable {α : Type} [BEq α]

instance : BEq (Cursor α) :=
  ⟨fun left right =>
    left.position == right.position && left.offset == right.offset && left.chunk? == right.chunk?⟩

/-- The order of two cursors, if they are ordered. -/
def compare? (left right : Cursor α) : Option Ordering :=
  match compare left.position right.position with
  | .eq => if left == right then some .eq else none
  | order => some order

/-- A cursor is before another if they are ordered so. -/
instance : LT (Cursor α) := ⟨fun left right => left.compare? right = some .lt⟩

/-- A cursor is at or before another if it is before it or the same. -/
instance : LE (Cursor α) :=
  ⟨fun left right => left.compare? right = some .lt ∨ left.compare? right = some .eq⟩

instance (left right : Cursor α) : Decidable (left < right) :=
  inferInstanceAs (Decidable (left.compare? right = some .lt))

instance (left right : Cursor α) : Decidable (left ≤ right) :=
  inferInstanceAs (Decidable (left.compare? right = some .lt ∨ left.compare? right = some .eq))

end Cursor
end GraphemeRope
