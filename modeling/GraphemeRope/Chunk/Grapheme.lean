import GraphemeRope.Chunk.Basic
import GraphemeRope.Unicode.Quoted
import GraphemeRope.Unicode.Units

/-! # Chunks of text -/

namespace GraphemeRope

/-- A run of text, kept as its clusters. -/
structure GraphemeChunk where
  clusters : List Grapheme
  deriving Repr

namespace GraphemeChunk

/-- The text of a chunk. -/
def text (chunk : GraphemeChunk) : Text := chunk.clusters.flatten

/-- Two chunks are the same if they have the same text. -/
instance : BEq GraphemeChunk := ⟨fun left right => left.text == right.text⟩

/-- The UTF-16 units of the text of a chunk. -/
def units (chunk : GraphemeChunk) : List UInt16 := Units.encode chunk.text

/-- The length of the text of a chunk in bytes of UTF-8. -/
def byteLength (chunk : GraphemeChunk) : Nat := total (chunk.text.map Char.utf8Size)

variable [CharacterTable]

/-- The chunk of a text, cut into its clusters. -/
def ofText (text : Text) : GraphemeChunk := ⟨Cluster.segment text⟩

/-- The pieces of a text with `limit` clusters each, except that the last may have fewer. Each
piece is cut into clusters anew. -/
def split (text : Text) (limit : Nat) : List GraphemeChunk :=
  (groups limit (Cluster.segment text)).map fun clusters => ofText clusters.flatten

instance : Chunk GraphemeChunk Grapheme where
  elements := clusters
  empty := ⟨[]⟩
  take chunk count := ⟨chunk.clusters.take count⟩
  drop chunk count := ⟨chunk.clusters.drop count⟩
  rechunk parts limit := split (parts.flatMap text) limit
  describe chunk := Quoted.delimited chunk.text

end GraphemeChunk
end GraphemeRope
