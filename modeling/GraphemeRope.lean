import GraphemeRope.Error
import GraphemeRope.Fault
import GraphemeRope.Geometry
import GraphemeRope.Row
import GraphemeRope.Unicode.CodePoint
import GraphemeRope.Unicode.BreakClass
import GraphemeRope.Unicode.Table
import GraphemeRope.Unicode.Cluster
import GraphemeRope.Unicode.Units
import GraphemeRope.Unicode.Printable
import GraphemeRope.Unicode.Quoted
import GraphemeRope.Chunk.Basic
import GraphemeRope.Chunk.Grapheme
import GraphemeRope.Chunk.Unit
import GraphemeRope.Tree.Basic
import GraphemeRope.Tree.Lookup
import GraphemeRope.Tree.Build
import GraphemeRope.Tree.Insert
import GraphemeRope.Tree.Cut
import GraphemeRope.Tree.Join
import GraphemeRope.Tree.Map
import GraphemeRope.Tree.Slot
import GraphemeRope.Cursor.Place
import GraphemeRope.Cursor.Basic
import GraphemeRope.Cursor.Order
import GraphemeRope.Cursor.Span
import GraphemeRope.Rope.Basic
import GraphemeRope.Rope.Align
import GraphemeRope.Rope.Edit
import GraphemeRope.UnitView
import GraphemeRope.Report
import GraphemeRope.Script.Numeral
import GraphemeRope.Script.Basic
import GraphemeRope.Script.Parse
import GraphemeRope.Script.Render
import GraphemeRope.Command.Arguments
import GraphemeRope.Command.Run
import GraphemeRope.Main
import GraphemeRope.Guarded.Geometry
import GraphemeRope.Guarded.Chunk
import GraphemeRope.Guarded.Tree
import GraphemeRope.Guarded.Rope
import GraphemeRope.Guarded.View
import GraphemeRope.Proofs.Row
import GraphemeRope.Proofs.Geometry
import GraphemeRope.Proofs.Cluster.Boundary
import GraphemeRope.Proofs.Cluster.Segmentation
import GraphemeRope.Proofs.Cluster.Count
import GraphemeRope.Proofs.Chunk
import GraphemeRope.Proofs.Units
import GraphemeRope.Proofs.Tree.Made
import GraphemeRope.Proofs.Tree.Counted
import GraphemeRope.Proofs.Tree.Shape
import GraphemeRope.Proofs.Tree.Lookup
import GraphemeRope.Proofs.Tree.Build
import GraphemeRope.Proofs.Tree.Leveled
import GraphemeRope.Proofs.Tree.Cut
import GraphemeRope.Proofs.Tree.Partition
import GraphemeRope.Proofs.Tree.Join
import GraphemeRope.Proofs.Tree.Graft
import GraphemeRope.Proofs.Tree.Insert
import GraphemeRope.Proofs.Tree.Content
import GraphemeRope.Proofs.Tree.Map
import GraphemeRope.Proofs.Tree.Region
import GraphemeRope.Proofs.Tree.Packing
import GraphemeRope.Proofs.Tree.Density
import GraphemeRope.Proofs.Tree.Growth
import GraphemeRope.Proofs.Rope.Reachable
import GraphemeRope.Proofs.Rope.Shape
import GraphemeRope.Proofs.Rope.Align
import GraphemeRope.Proofs.Rope.Splice
import GraphemeRope.Proofs.Rope.Coherence
import GraphemeRope.Proofs.Rope.Widening
import GraphemeRope.Proofs.Cursor.Slot
import GraphemeRope.Proofs.Cursor.Place
import GraphemeRope.Proofs.Cursor.Move
import GraphemeRope.Proofs.Cursor.Order
import GraphemeRope.Proofs.Cursor.Span
import GraphemeRope.Proofs.Cursor.Draw
import GraphemeRope.Proofs.Rope.Forest
import GraphemeRope.Proofs.Rope.TextEdit
import GraphemeRope.Proofs.Rope.Equality
import GraphemeRope.Proofs.Rope.Typing
import GraphemeRope.Proofs.Rope.Ownership
import GraphemeRope.Proofs.Rope.Anchor
import GraphemeRope.Proofs.Rope.Growth
import GraphemeRope.Proofs.Rope.Frame
import GraphemeRope.Proofs.Rope.Fresh
import GraphemeRope.Proofs.Script.Numeral
import GraphemeRope.Proofs.Script.Grammar
import GraphemeRope.Proofs.Script.Shown
import GraphemeRope.Proofs.Command.Words
import GraphemeRope.Proofs.Command.EditLine
import GraphemeRope.Proofs.Command.Listing
import GraphemeRope.Proofs.UnitView
import GraphemeRope.Proofs.UnitView.Cut
import GraphemeRope.Proofs.UnitView.Decode
import GraphemeRope.Proofs.Command.UnitLine
import GraphemeRope.Proofs.Guarded.Chunk
import GraphemeRope.Proofs.Chunk.Recut
import GraphemeRope.Proofs.Guarded.Tree
import GraphemeRope.Proofs.Guarded.Rope
import GraphemeRope.Proofs.Guarded.View
import GraphemeRope.Proofs.Guarded.Safety
import GraphemeRope.Proofs.Report
import GraphemeRope.Proofs.Cursor.Order
