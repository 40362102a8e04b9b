import GraphemeRope.UnitView

/-! # Reports

The sizes of a rope and the shape of its regions. -/

namespace GraphemeRope

/-- What is reported of a rope. An empty window does not count as a chunk. -/
structure Report where
  graphemes : Nat
  units : Nat
  bytes : Nat
  chunks : Nat
  depth : Nat
  windowStart : Nat
  windowStop : Nat
  deriving DecidableEq, Repr

namespace Report

/-- The report of a rope. -/
def ofRope [CharacterTable] (rope : Rope) : Report :=
  let window := if Chunk.isEmpty rope.window then [] else [rope.window]
  let chunks := rope.left.chunks ++ window ++ rope.right.chunks
  { graphemes := rope.length
    units := rope.unitView.length
    bytes := total (chunks.map GraphemeChunk.byteLength)
    chunks := chunks.length
    depth := rope.depth
    windowStart := rope.windowStart
    windowStop := rope.windowStop }

/-- The report in words, without a line end after the last line. -/
def render (report : Report) : String :=
  s!"graphemes:    {report.graphemes}\n" ++
  s!"utf-16 units: {report.units}\n" ++
  s!"bytes:        {report.bytes}\n" ++
  s!"chunks:       {report.chunks}\n" ++
  s!"depth:        {report.depth}\n" ++
  s!"edit window:  {report.windowStart}..{report.windowStop}"

end Report
end GraphemeRope
