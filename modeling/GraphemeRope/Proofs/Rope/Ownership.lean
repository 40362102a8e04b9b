import GraphemeRope.Proofs.Rope.Typing

/-! # Which region owns what after a change

Clusters that are joined in the window are cut into chunks from the left: the last of these stays in
the window, and the others, which are full, spill onto the left tree
(`GraphemeRope.Rope.settled_withWindow`). Hence where the regions of a rope meet after an aligned
change depends on its ends and on numbers of clusters alone (`GraphemeRope.Rope.regions_splice`).
-/

namespace GraphemeRope
namespace Rope

/-- How many of so many joined clusters stay in a window of at most `limit`. -/
def leftInWindow (limit count : Nat) : Nat := if count = 0 then 0 else (count - 1) % limit + 1

/-- What is before the right tree of a rope after clusters were joined in its window, with others
before them that stay in the left tree. -/
structure Settled [CharacterTable] (limit : Nat) (before joined : List Grapheme) (rope : Rope) :
    Prop where
  /-- How long the window is. -/
  length_eq : Chunk.length rope.window = leftInWindow limit joined.length
  /-- The last clusters are in the window. -/
  window_eq : rope.window.clusters = joined.drop (joined.length - Chunk.length rope.window)
  /-- The first clusters are at the end of the left tree, in full chunks. -/
  left_eq : ∃ front spilled, rope.left.chunks = front ++ spilled ∧
    Chunk.elementsOf front = before ∧
    Chunk.elementsOf spilled = joined.take (joined.length - Chunk.length rope.window) ∧
    ∀ chunk ∈ spilled, Chunk.length chunk = limit

section Settled

variable [CharacterTable] {geometry : Geometry} {limit : Nat} {before joined : List Grapheme}
  {rope : Rope}

omit [CharacterTable] in
/-- No more clusters are left in a window than were joined there. -/
theorem leftInWindow_le (limit count : Nat) : leftInWindow limit count ≤ count := by
  unfold leftInWindow
  split
  · exact Nat.zero_le _
  · have remainder := Nat.mod_le (count - 1) limit
    omega

namespace Settled

/-- The window is not longer than what was joined in it. -/
theorem length_le (settled : Settled limit before joined rope) :
    Chunk.length rope.window ≤ joined.length :=
  settled.length_eq ▸ leftInWindow_le limit joined.length

/-- The window begins after what stays in the left tree and what spilled onto it. -/
theorem windowStart_eq (settled : Settled limit before joined rope)
    (made : Tree.Made geometry rope.left) :
    rope.windowStart = before.length + (joined.length - Chunk.length rope.window) := by
  obtain ⟨front, spilled, chunks, kept, first, _⟩ := settled.left_eq
  rw [windowStart, made.length_eq, Tree.elements_eq_elementsOf, chunks, Chunk.elementsOf_append,
    kept, first, List.length_append, List.length_take_of_le (Nat.sub_le _ _)]

/-- The window stops behind all that was joined in it. -/
theorem windowStop_eq (settled : Settled limit before joined rope)
    (made : Tree.Made geometry rope.left) : rope.windowStop = before.length + joined.length := by
  have fits := settled.length_le
  rw [windowStop, settled.windowStart_eq made]
  omega

end Settled

/-- Chunks of which none is empty follow those of the tree that they spill onto, unless there is
nothing in it. -/
theorem exists_chunks_spill {left : Tree GraphemeChunk} (made : Tree.Made geometry left)
    {spilled : List GraphemeChunk} (inhabited : ∀ chunk ∈ spilled, 0 < Chunk.length chunk) :
    ∃ front, (if spilled.isEmpty then left
        else left.append geometry (Tree.ofChunks geometry spilled)).chunks = front ++ spilled ∧
      Chunk.elementsOf front = left.elements := by
  by_cases vacant : spilled.isEmpty = true
  · rw [if_pos vacant, List.isEmpty_iff.mp vacant]
    exact ⟨left.chunks, (List.append_nil _).symm, rfl⟩
  · have filled : ¬(Tree.ofChunks geometry spilled).isEmpty = true :=
      Tree.not_isEmpty_ofChunks geometry (fun empty => vacant (List.isEmpty_iff.mpr empty))
        inhabited
    rw [if_neg vacant]
    by_cases nothing : left.isEmpty = true
    · rw [Tree.append, if_neg filled, if_pos nothing, Tree.chunks_ofChunks,
        made.isEmpty_iff.mp nothing]
      exact ⟨[], rfl, rfl⟩
    · rw [Tree.chunks_append_of_filled made (Tree.made_ofChunks geometry spilled) nothing filled,
        Tree.chunks_ofChunks]
      exact ⟨left.chunks, rfl, rfl⟩

/-- **What spills.** Of clusters that are joined in a window, the last chunk stays there, and the
chunks before it, which are full, follow the left tree. -/
theorem settled_withWindow {left : Tree GraphemeChunk} (made : Tree.Made geometry left)
    (parts : List GraphemeChunk) (right : Tree GraphemeChunk)
    (cut : Cluster.segment (Chunk.elementsOf parts).flatten = joined) :
    Settled geometry.leafLength left.elements joined (withWindow geometry left parts right) := by
  have clusters := GraphemeChunk.elementsOf_rechunk parts geometry.leafLength
  have sizes := Chunk.within_rechunk (Nat.le_refl 1) geometry.leafLength_pos parts
  have full : ∀ chunk ∈ (Chunk.rechunk parts geometry.leafLength).dropLast,
      Chunk.length chunk = geometry.leafLength :=
    GraphemeChunk.length_of_mem_dropLast_split geometry.leafLength_pos
  have filled : ∀ chunk ∈ (Chunk.rechunk parts geometry.leafLength).dropLast,
      0 < Chunk.length chunk := fun chunk member => full chunk member ▸ geometry.leafLength_pos
  obtain ⟨front, chunks, kept⟩ := exists_chunks_spill made filled
  rw [← left_withWindow geometry left right parts] at chunks
  have window := window_withWindow geometry left right parts
  rw [cut] at clusters
  rcases eq_nil_or_exists_last (Chunk.rechunk parts geometry.leafLength) with
    nothing | ⟨spilled, last, pieces⟩
  · rw [nothing] at window chunks clusters
    rw [← clusters]
    exact ⟨congrArg Chunk.length window,
      (congrArg GraphemeChunk.clusters window).trans List.drop_nil.symm, front, [], chunks, kept,
      List.take_nil.symm, List.forall_mem_nil _⟩
  · rw [pieces, List.getLast?_concat, Option.getD_some] at window
    rw [pieces, List.dropLast_concat] at chunks full
    rw [pieces, Chunk.elementsOf_append, Chunk.elementsOf_cons, Chunk.elementsOf_nil,
      List.append_nil] at clusters
    have size := sizes last (pieces ▸ List.mem_concat_self)
    have rest : joined.length - Chunk.length last = (Chunk.elementsOf spilled).length := by
      rw [← clusters, List.length_append]
      exact Nat.add_sub_cancel _ _
    have modulo : Chunk.length last = (joined.length - 1) % geometry.leafLength + 1 := by
      have blocks : ∀ block ∈ spilled.map GraphemeChunk.clusters,
          block.length = geometry.leafLength := by
        rw [List.forall_mem_map]
        exact full
      rw [← clusters, Chunk.elementsOf, List.flatMap_def]
      exact length_last_group blocks (List.length_pos_iff.mp size.1) size.2
    have filled : joined.length ≠ 0 := by
      rw [← clusters, List.length_append]
      exact Nat.ne_of_gt (Nat.lt_of_lt_of_le size.1 (Nat.le_add_left _ _))
    refine ⟨?_, ?_, front, spilled, chunks, kept, ?_, full⟩
    · rw [window, leftInWindow, if_neg filled, modulo]
    · rw [window, rest, ← clusters, List.drop_left]
      rfl
    · rw [window, rest, ← clusters, List.take_left]

end Settled

/-- The clusters in the window once a change that meets it is made: those of its content, between
what is left of the window before and after it. -/
def joinedInWindow [CharacterTable] (rope : Rope) (change : Change) : List Grapheme :=
  rope.window.clusters.take (change.start - rope.windowStart) ++ Cluster.segment change.content ++
    rope.window.clusters.drop (change.stop - rope.windowStart)

section Regions

variable [CharacterTable] {geometry : Geometry} {rope : Rope} {change : Change}

/-- What is joined from chunks beside the content of an aligned change has their clusters beside
those of the content. -/
theorem settled_between {left : Tree GraphemeChunk} (made : Tree.Made geometry left)
    (before after : GraphemeChunk) (content : Text) (right : Tree GraphemeChunk)
    (segmented : Cluster.Segmented (left.elements ++ (before.clusters ++ Cluster.segment content ++
      after.clusters) ++ right.elements)) :
    Settled geometry.leafLength left.elements
      (before.clusters ++ Cluster.segment content ++ after.clusters)
      (withWindow geometry left [before, GraphemeChunk.ofText content, after] right) := by
  refine settled_withWindow made _ _ ?_
  rw [GraphemeChunk.flatten_between, Cluster.segment_between segmented]

/-- In a window are joined its clusters before a change, the content, and its clusters behind the
change. -/
theorem length_joinedInWindow (start : change.start ≤ rope.windowStop)
    (stop : rope.windowStart ≤ change.stop) :
    (rope.joinedInWindow change).length = (change.start - rope.windowStart) +
      (Cluster.segment change.content).length + (rope.windowStop - change.stop) := by
  have size : rope.windowStop = rope.windowStart + rope.window.clusters.length := rfl
  simp only [joinedInWindow, List.length_append, List.length_take, List.length_drop]
  omega

/-- A change inside the window joins what is left of the window with its content, and leaves the
right tree alone. -/
theorem settled_splice_inWindow (measured : Measured rope)
    (segmented : Cluster.Segmented (change.clusters rope.elements))
    (ordered : change.start ≤ change.stop) (start : rope.windowStart ≤ change.start)
    (stop : change.stop ≤ rope.windowStop) :
    Settled rope.geometry.leafLength rope.left.elements (rope.joinedInWindow change)
        (rope.splice change) ∧
      (rope.splice change).right = rope.right := by
  rw [clusters_inWindow measured ordered start stop] at segmented
  rw [splice_of_inWindow start stop]
  exact ⟨settled_between measured.left _ _ _ _ segmented, rfl⟩

/-- A change behind the window changes the right tree alone. -/
theorem exists_splice_afterWindow
    (behind : rope.placement change.start change.stop = .afterWindow) :
    ∃ right, rope.splice change = { rope with right } := by
  rw [splice, behind]
  exact ⟨_, rfl⟩

/-- A change before the window moves the window to its content, and what was behind the change makes
the right tree. -/
theorem settled_splice_beforeWindow (measured : Measured rope)
    (before : rope.placement change.start change.stop = .beforeWindow) :
    Settled rope.geometry.leafLength (rope.left.elements.take change.start)
        (Cluster.segment change.content) (rope.splice change) ∧
      (rope.splice change).right.elements = rope.elements.drop change.stop := by
  have stop := rope.placement_spec change.start change.stop
  rw [before] at stop
  obtain ⟨made, joined⟩ := elements_windowBefore measured
  rw [splice, before]
  constructor
  · rw [← Tree.elements_take measured.left]
    refine settled_withWindow (Tree.made_take measured.left change.start) _ _ ?_
    rw [GraphemeChunk.flatten_single]
  · rw [drop_elements_beforeWindow measured stop, ← joined, ← Tree.elements_drop measured.left]
    exact Tree.elements_append (Tree.made_drop measured.left change.stop) made

/-- A change over an end of the window joins what is left of the window with its content, and takes
from both trees what it covers of them. -/
theorem settled_splice_acrossWindow (measured : Measured rope)
    (segmented : Cluster.Segmented (change.clusters rope.elements))
    (across : rope.placement change.start change.stop = .acrossWindow) :
    Settled rope.geometry.leafLength (rope.left.elements.take change.start)
        (rope.joinedInWindow change) (rope.splice change) ∧
      (rope.splice change).right.elements =
        rope.elements.drop (max change.stop rope.windowStop) := by
  have place := rope.placement_spec change.start change.stop
  rw [across] at place
  obtain ⟨start, stop, _⟩ := place
  have front := Tree.elements_take measured.left (min change.start rope.windowStart)
  have behind := Tree.elements_drop measured.right
    (max change.stop rope.windowStop - rope.windowStop)
  have clipped : rope.left.elements.take (min change.start rope.windowStart) =
      rope.left.elements.take change.start := by
    rw [measured.windowStart_eq, ← List.take_take, List.take_length]
  rw [clusters_acrossWindow measured (Nat.le_of_lt start) (Nat.le_of_lt stop),
    ← clusters_windowTail, ← front, ← behind] at segmented
  rw [clipped] at front
  rw [splice, across]
  constructor
  · rw [← front, joinedInWindow, ← clusters_windowTail]
    exact settled_between (Tree.made_take measured.left _) _ _ _ _ segmented
  · rw [drop_elements_afterWindow measured (Nat.le_max_right _ _)]
    exact behind

/-- **Who owns what after a splice.** A change inside the window leaves the right tree alone, and
one behind it leaves all else alone. A change before the window moves the window to its content, and
what was behind the change is in the right tree then; a change over an end of the window does the
same with its content and what is left of the window. The clusters that are joined in the window
spill onto what is left of the left tree in full chunks, all but the last chunk. -/
theorem regions_splice {history : List Edit} (reached : Reachable geometry history rope)
    (ordered : change.start ≤ change.stop) (inside : change.stop ≤ rope.length)
    (aligned : rope.isAligned change = true) :
    let after := rope.splice change
    let count := (Cluster.segment change.content).length
    if rope.windowStart ≤ change.start ∧ change.stop ≤ rope.windowStop then
      after.right = rope.right ∧
        after.windowStop = rope.windowStop + count - (change.stop - change.start) ∧
        Settled geometry.leafLength rope.left.elements (rope.joinedInWindow change) after
    else if rope.windowStop ≤ change.start then
      after.left = rope.left ∧ after.window = rope.window ∧
        after.windowStart = rope.windowStart ∧ after.windowStop = rope.windowStop
    else if change.stop ≤ rope.windowStart then
      after.windowStop = change.start + count ∧
        after.right.elements = rope.elements.drop change.stop ∧
        Settled geometry.leafLength (rope.left.elements.take change.start)
          (Cluster.segment change.content) after
    else
      after.windowStop = change.start + count + (rope.windowStop - change.stop) ∧
        after.right.elements = rope.elements.drop (max change.stop rope.windowStop) ∧
        Settled geometry.leafLength (rope.left.elements.take change.start)
          (rope.joinedInWindow change) after := by
  intro after count
  have measured := reached.measured
  have within : change.start ≤ rope.elements.length :=
    measured.length_eq ▸ Nat.le_trans ordered inside
  have segmented := segmented_clusters_of_isAligned measured reached.segmented within aligned
  have made := (reached.shaped.splice (leastLength_le_one history) change).left.made
  obtain rfl := reached.shaped.geometry_eq
  have place := rope.placement_eq change.start change.stop
  split
  · next window =>
      obtain ⟨settled, right⟩ :=
        settled_splice_inWindow measured segmented ordered window.1 window.2
      refine ⟨right, ?_, settled⟩
      have joined := length_joinedInWindow (Nat.le_trans ordered window.2)
        (Nat.le_trans window.1 ordered)
      rw [settled.windowStop_eq made, ← measured.windowStart_eq]
      omega
  · next outside =>
      rw [if_neg outside] at place
      split
      · next behind =>
          rw [if_pos behind] at place
          obtain ⟨right, kept⟩ : ∃ right, after = { rope with right } :=
            exists_splice_afterWindow place
          rw [kept]
          exact ⟨rfl, rfl, rfl, rfl⟩
      · next ahead =>
          rw [if_neg ahead] at place
          split
          · next before =>
              rw [if_pos before] at place
              obtain ⟨settled, right⟩ := settled_splice_beforeWindow measured place
              refine ⟨?_, right, settled⟩
              rw [settled.windowStop_eq made, List.length_take_of_le]
              exact measured.windowStart_eq ▸ Nat.le_trans ordered before
          · next meets =>
              rw [if_neg meets] at place
              obtain ⟨settled, right⟩ := settled_splice_acrossWindow measured segmented place
              refine ⟨?_, right, settled⟩
              have joined := length_joinedInWindow (Nat.le_of_not_le ahead)
                (Nat.le_of_not_le meets)
              rw [settled.windowStop_eq made, List.length_take, ← measured.windowStart_eq]
              omega

end Regions

/-- Clusters put in the place of two, of which the left tree owns one and the window the other, in a
small geometry. They join the last cluster in the window, which keeps two of them. -/
theorem regions_splice_across_window :
    let small : Geometry := ⟨1, 1, by decide, by decide⟩
    let rope := (empty small).splice ⟨0, 0, ['a', 'b', 'c', 'd']⟩
    let change : Change := ⟨1, 3, ['x', 'y', 'z']⟩
    let after := rope.splice change
    (rope.windowStart = 2 ∧ rope.windowStop = 4) ∧ after.windowStop = 5 ∧
      after.right.elements = [] ∧
      Settled small.leafLength [['a']] [['x'], ['y'], ['z'], ['d']] after := by
  intro small rope change after
  have reached : Reachable small [.insert 0 ['a', 'b', 'c', 'd']] rope :=
    reachable_splice_empty (List.cons_ne_nil _ _) (by decide +kernel)
  have place : rope.windowStart = 2 ∧ rope.windowStop = 4 := by decide +kernel
  have owned := regions_splice reached (show change.start ≤ change.stop by decide)
    (by decide +kernel) (by decide +kernel)
  have left : rope.left.elements.take change.start = [['a']] := by decide +kernel
  have joined : rope.joinedInWindow change = [['x'], ['y'], ['z'], ['d']] := by decide +kernel
  have count : (Cluster.segment change.content).length = 3 := by decide +kernel
  have right : rope.elements.drop (max change.stop 4) = [] := by decide +kernel
  simp only [place] at owned
  rw [if_neg (by decide), if_neg (by decide), if_neg (by decide), left, joined, count,
    right] at owned
  exact ⟨place, owned⟩

end Rope
end GraphemeRope
