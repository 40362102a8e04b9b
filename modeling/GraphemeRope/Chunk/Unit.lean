import GraphemeRope.Chunk.Basic
import GraphemeRope.Unicode.Units

/-! # Chunks of UTF-16 units -/

namespace GraphemeRope

/-- A run of UTF-16 units, which may begin or end inside a surrogate pair. -/
structure UnitChunk where
  units : List UInt16
  deriving DecidableEq, Repr

namespace UnitChunk

/-- The chunk of the units of a text. -/
def ofText (text : Text) : UnitChunk := ⟨Units.encode text⟩

instance : Chunk UnitChunk UInt16 where
  elements := units
  empty := ⟨[]⟩
  take chunk count := ⟨chunk.units.take count⟩
  drop chunk count := ⟨chunk.units.drop count⟩
  rechunk parts limit := (groups limit (parts.flatMap units)).map UnitChunk.mk
  describe chunk := Units.describe chunk.units

end UnitChunk
end GraphemeRope
