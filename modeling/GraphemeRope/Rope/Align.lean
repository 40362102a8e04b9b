import GraphemeRope.Rope.Basic

/-! # Aligning changes with clusters

New content can join the clusters beside it, a combining mark for one. A change is therefore
widened, cluster by cluster, until both its ends are boundaries of the changed text. -/

namespace GraphemeRope

/-- The replacement of the clusters from `start` up to `stop` by a text. -/
structure Change where
  start : Nat
  stop : Nat
  content : Text
  deriving DecidableEq, Repr

namespace Rope

variable [CharacterTable] (rope : Rope)

/-- The cluster before a position, empty at the start. -/
def clusterBefore (position : Nat) : Text :=
  if position = 0 then [] else (rope.element (position - 1)).toOption.getD []

/-- The cluster at a position, empty at the end. -/
def clusterFrom (position : Nat) : Text :=
  if position < rope.length then (rope.element position).toOption.getD [] else []

/-- Whether the content of a change holds together with the cluster before it. -/
def joinsBefore (change : Change) : Bool :=
  let before := rope.clusterBefore change.start
  let after := rope.clusterFrom change.stop
  !before.isEmpty && !Cluster.isBoundary before (change.content ++ after)

/-- Whether the content of a change holds together with the cluster after it. -/
def joinsAfter (change : Change) : Bool :=
  let before := rope.clusterBefore change.start
  let after := rope.clusterFrom change.stop
  !after.isEmpty && !Cluster.isBoundary (before ++ change.content) after

/-- The change with the neighbours drawn in that its content holds together with. -/
def widen (change : Change) : Change where
  start := if rope.joinsBefore change then change.start - 1 else change.start
  stop := if rope.joinsAfter change then change.stop + 1 else change.stop
  content :=
    (if rope.joinsBefore change then rope.clusterBefore change.start else []) ++ change.content ++
      (if rope.joinsAfter change then rope.clusterFrom change.stop else [])

/-- Whether both ends of a change are boundaries of the changed text. -/
def isAligned (change : Change) : Bool := !rope.joinsBefore change && !rope.joinsAfter change

/-- A change that joins the cluster before it does not start at the start. -/
theorem start_pos_of_joinsBefore {rope : Rope} {change : Change}
    (joins : rope.joinsBefore change = true) : 0 < change.start := by
  rcases Nat.eq_zero_or_pos change.start with zero | positive
  · simp [joinsBefore, clusterBefore, zero] at joins
  · exact positive

/-- A change that joins the cluster after it does not stop at the end. -/
theorem stop_lt_of_joinsAfter {rope : Rope} {change : Change}
    (joins : rope.joinsAfter change = true) : change.stop < rope.length := by
  by_cases inside : change.stop < rope.length
  · exact inside
  · simp [joinsAfter, clusterFrom, inside] at joins

/-- Widening a change that is not aligned leaves less of the rope outside it. -/
theorem outside_widen_lt {rope : Rope} {change : Change}
    (unaligned : ¬rope.isAligned change = true) :
    (rope.widen change).start + (rope.length - (rope.widen change).stop) <
      change.start + (rope.length - change.stop) := by
  cases before : rope.joinsBefore change <;> cases after : rope.joinsAfter change
  · simp [isAligned, before, after] at unaligned
  · have inside := stop_lt_of_joinsAfter after
    simp only [widen, before, after, Bool.false_eq_true, ↓reduceIte]
    omega
  · have positive := start_pos_of_joinsBefore before
    simp only [widen, before, after, Bool.false_eq_true, ↓reduceIte]
    omega
  · have positive := start_pos_of_joinsBefore before
    simp only [widen, before, after, ↓reduceIte]
    omega

/-- The change widened until it is aligned. -/
def align (rope : Rope) (change : Change) : Change :=
  if rope.isAligned change then change else rope.align (rope.widen change)
termination_by change.start + (rope.length - change.stop)
decreasing_by exact outside_widen_lt (by assumption)

/-- The change widened until it is aligned, or nothing if it is so from the start. -/
def widened? (rope : Rope) (change : Change) : Option Change :=
  if rope.isAligned change then none else some (rope.align change)

end Rope
end GraphemeRope
