import GraphemeRope.Proofs.Tree.Join
import GraphemeRope.Proofs.Tree.Leveled

/-! # Joining by calls that turn round

The way down the right edge of a tree may end at a leaf, and then goes on down the left edge of the
tree that is put after it; and the other way round. Two functions that call each other so are run
here with a bound on the calls that may be nested (`GraphemeRope.Tree.joined?`). The heights of both
trees and three more are enough of them, and then the joined tree is that of
`GraphemeRope.Tree.append`. It has the chunks of both trees in order; and if the leaves of each lie
at one depth, so do its own, and it is as high as the higher of the two or one higher
(`GraphemeRope.Tree.joined_exact`).
-/

namespace GraphemeRope
namespace Tree

variable {α ε : Type}

/-- Whether two trees are nodes that remember the same height. -/
def sameLevel : Tree α → Tree α → Bool
  | .node first _, .node second _ => first.height = second.height
  | _, _ => false

variable [Chunk α ε]

mutual

/-- The siblings that replace a tree when another, `rear`, is put after it, found by at most so many
nested calls. At a leaf the calls turn to the left edge of a node after it. -/
def graftAfter? (geometry : Geometry) : Nat → Tree α → Tree α → Option (List (Tree α))
  | 0, _, _ => none
  | _ + 1, .leaf _ chunks, .leaf _ more => some (leaves geometry (chunks ++ more))
  | calls + 1, .leaf measure chunks, .node other more =>
      graftBefore? geometry calls (.node other more) (.leaf measure chunks)
  | calls + 1, .node measure children, rear =>
      if sameLevel (.node measure children) rear then
        some (regroup geometry (children ++ rear.children))
      else
        match children.getLast? with
        | none => some (regroup geometry [rear])
        | some last =>
            (graftAfter? geometry calls last rear).map fun grown =>
              regroup geometry (children.dropLast ++ grown)

/-- The siblings that replace a tree when another, `front`, is put before it, found by at most so
many nested calls. At a leaf the calls turn to the right edge of a node before it. -/
def graftBefore? (geometry : Geometry) : Nat → Tree α → Tree α → Option (List (Tree α))
  | 0, _, _ => none
  | _ + 1, .leaf _ chunks, .leaf _ more => some (leaves geometry (more ++ chunks))
  | calls + 1, .leaf measure chunks, .node other more =>
      graftAfter? geometry calls (.node other more) (.leaf measure chunks)
  | calls + 1, .node measure children, front =>
      if sameLevel (.node measure children) front then
        some (regroup geometry (front.children ++ children))
      else
        match children with
        | [] => some (regroup geometry [front])
        | first :: rest =>
            (graftBefore? geometry calls first front).map fun grown =>
              regroup geometry (grown ++ rest)

end

/-- The tree of the content of one tree followed by that of another, found by at most so many nested
calls. -/
def joined? (geometry : Geometry) (calls : Nat) (left right : Tree α) : Option (Tree α) :=
  if right.isEmpty then some left
  else if left.isEmpty then some right
  else if right.height ≤ left.height then
    (graftAfter? geometry calls left right).map (ofSiblings geometry)
  else (graftBefore? geometry calls right left).map (ofSiblings geometry)

variable {geometry : Geometry}

section Calls

variable {calls : Nat} {front rear tree : Tree α}

/-- A made node is on one level with the made trees that remember its height. -/
theorem sameLevel_iff {measure : Measure} {children : List (Tree α)}
    (made : Made geometry (.node measure children)) {other : Tree α}
    (madeOther : Made geometry other) :
    sameLevel (.node measure children) other = true ↔ measure.height = other.height := by
  cases madeOther with
  | leaf chunks => exact iff_of_false Bool.false_ne_true (Nat.ne_of_gt made.height_pos)
  | node others _ => exact decide_eq_true_iff

/-- A leaf is grafted in front of a tree by prepending its chunks, if the calls reach down to the
leaves. -/
theorem graftBefore?_makeLeaf (chunks : List α) (made : Made geometry tree)
    (enough : tree.height < calls) :
    graftBefore? geometry calls tree (makeLeaf geometry chunks) =
      some (tree.prepended geometry chunks) := by
  induction tree generalizing calls with
  | leaf measure others =>
      obtain ⟨calls, rfl⟩ := Nat.exists_eq_succ_of_ne_zero (Nat.ne_zero_of_lt enough)
      rfl
  | node measure children ih =>
      obtain ⟨calls, rfl⟩ := Nat.exists_eq_succ_of_ne_zero (Nat.ne_zero_of_lt enough)
      cases children with
      | nil => rfl
      | cons first rest =>
          have lower := made.height_lt first List.mem_cons_self
          have fewer : first.height < calls :=
            Nat.lt_of_lt_of_le lower (Nat.le_of_lt_succ enough)
          have found := ih first List.mem_cons_self (made.children first List.mem_cons_self) fewer
          rw [makeLeaf, graftBefore?, ← makeLeaf, found]
          rfl

/-- With enough calls a tree is grafted behind another by extending it. -/
theorem graftAfter?_eq (madeRear : Made geometry rear) (made : Made geometry tree)
    (enough : tree.height + rear.height + 1 < calls) :
    graftAfter? geometry calls tree rear = some (extended geometry rear tree) := by
  induction tree generalizing calls with
  | leaf measure chunks =>
      obtain ⟨calls, rfl⟩ := Nat.exists_eq_succ_of_ne_zero (Nat.ne_zero_of_lt enough)
      cases madeRear with
      | leaf more => rfl
      | node more under =>
          cases made
          have fewer : (makeNode geometry more).height < calls := by omega
          exact graftBefore?_makeLeaf chunks (.node more under) fewer
  | node measure children ih =>
      obtain ⟨calls, rfl⟩ := Nat.exists_eq_succ_of_ne_zero (Nat.ne_zero_of_lt enough)
      rw [graftAfter?, extended]
      simp only [sameLevel_iff made madeRear]
      split
      · rfl
      · rcases eq_nil_or_exists_last children with rfl | ⟨front, last, rfl⟩
        · rfl
        · have lower := made.height_lt last List.mem_concat_self
          have fewer : last.height + rear.height + 1 < calls := by
            change measure.height + rear.height + 1 < calls + 1 at enough
            omega
          have found := ih last List.mem_concat_self
            (made.children last List.mem_concat_self) fewer
          rw [List.getLast?_concat, List.dropLast_concat, extendedLast_concat]
          simp only [found, Option.map_some]

/-- With enough calls a tree is grafted in front of another by preceding it. -/
theorem graftBefore?_eq (madeFront : Made geometry front) (made : Made geometry tree)
    (enough : tree.height + front.height + 2 < calls) :
    graftBefore? geometry calls tree front = some (preceded geometry front tree) := by
  induction tree generalizing calls with
  | leaf measure chunks =>
      obtain ⟨calls, rfl⟩ := Nat.exists_eq_succ_of_ne_zero (Nat.ne_zero_of_lt enough)
      cases madeFront with
      | leaf more => rfl
      | node more under =>
          cases made
          have fewer : (makeNode geometry more).height + 0 + 1 < calls := by omega
          exact graftAfter?_eq (.leaf chunks) (.node more under) fewer
  | node measure children ih =>
      obtain ⟨calls, rfl⟩ := Nat.exists_eq_succ_of_ne_zero (Nat.ne_zero_of_lt enough)
      cases children with
      | nil =>
          rw [graftBefore?, preceded]
          simp only [sameLevel_iff made madeFront]
          split
          · rfl
          · rfl
      | cons first rest =>
          have lower := made.height_lt first List.mem_cons_self
          have fewer : first.height + front.height + 2 < calls := by
            change measure.height + front.height + 2 < calls + 1 at enough
            omega
          have found := ih first List.mem_cons_self
            (made.children first List.mem_cons_self) fewer
          rw [graftBefore?, preceded, found, Option.map_some]
          simp only [sameLevel_iff made madeFront]
          split
          · rfl
          · rfl

/-- **The calls end.** With enough calls the joined tree is found. -/
theorem joined?_eq {left right : Tree α} (madeLeft : Made geometry left)
    (madeRight : Made geometry right) (enough : left.height + right.height + 3 ≤ calls) :
    joined? geometry calls left right = some (append geometry left right) := by
  unfold joined? append
  split
  · rfl
  · split
    · rfl
    · split
      · rw [graftAfter?_eq madeRight madeLeft (by omega), Option.map_some]
      · rw [graftBefore?_eq madeLeft madeRight (by omega), Option.map_some]

end Calls

section Siblings

/-- Chunks for the slots of two leaves fill no more than two. -/
theorem length_leaves_le_two {chunks : List α} (few : chunks.length ≤ 2 * geometry.branching) :
    (leaves geometry chunks).length ≤ 2 := by
  rw [leaves, List.length_map]
  exact length_groups_le_of_le_mul few

omit [Chunk α ε] in
/-- Siblings for the slots of two nodes get no more than two parents. -/
theorem length_regroup_le_two {siblings : List (Tree α)}
    (few : siblings.length ≤ 2 * geometry.branching) : (regroup geometry siblings).length ≤ 2 := by
  rw [regroup, List.length_map]
  exact length_groups_le_of_le_mul few

omit [Chunk α ε] in
/-- A leveled tree has no more trees below its root than slots. -/
theorem Leveled.length_children_le {depth : Nat} {tree : Tree α}
    (leveled : Leveled geometry depth tree) : tree.children.length ≤ geometry.branching := by
  cases leveled with
  | leaf _ => exact Nat.zero_le _
  | node _ fits _ => exact fits

variable {low high : Nat} {front rear tree : Tree α}

/-- A tree put after one that is not lower overflows each node on the way by one slot at most. -/
theorem length_extended_le_two (madeRear : Made geometry rear) (made : Made geometry tree)
    (leveledRear : Leveled geometry low rear) (leveled : Leveled geometry high tree)
    (lower : low ≤ high) : (extended geometry rear tree).length ≤ 2 := by
  induction tree generalizing high with
  | leaf measure chunks =>
      obtain ⟨rfl, fits⟩ := leveled.chunks
      obtain rfl := Nat.le_zero.mp lower
      cases leveledRear with
      | leaf fitsRear =>
          apply length_leaves_le_two
          rw [List.length_append]
          omega
  | node measure children ih =>
      have level := leveled.height_eq made
      obtain ⟨below, rfl, filled, fits, under⟩ := leveled.children
      change measure.height = below + 1 at level
      rw [extended, level, leveledRear.height_eq madeRear]
      split
      · have fitsRear := leveledRear.length_children_le
        apply length_regroup_le_two
        rw [List.length_append]
        omega
      · next different =>
          obtain nothing | ⟨front, last, rfl⟩ := eq_nil_or_exists_last children
          · exact absurd nothing filled
          · have grown := ih last List.mem_concat_self
              (made.children last List.mem_concat_self) (under last List.mem_concat_self) (by omega)
            have two := geometry.two_le_branching
            rw [List.length_append, List.length_singleton] at fits
            apply length_regroup_le_two
            rw [extendedLast_concat, List.length_append]
            omega

/-- No more than two siblings replace a leveled tree when a lower one is put in front of it. -/
theorem length_preceded_le_two (madeFront : Made geometry front) (made : Made geometry tree)
    (leveledFront : Leveled geometry low front) (leveled : Leveled geometry high tree)
    (lower : low ≤ high) : (preceded geometry front tree).length ≤ 2 := by
  induction tree generalizing high with
  | leaf measure chunks =>
      obtain ⟨rfl, _⟩ := leveled.chunks
      obtain rfl := Nat.le_zero.mp lower
      exact length_extended_le_two made madeFront leveled leveledFront (Nat.le_refl 0)
  | node measure children ih =>
      have level := leveled.height_eq made
      obtain ⟨below, rfl, filled, fits, under⟩ := leveled.children
      change measure.height = below + 1 at level
      rw [preceded, level, leveledFront.height_eq madeFront]
      split
      · have fitsFront := leveledFront.length_children_le
        apply length_regroup_le_two
        rw [List.length_append]
        omega
      · next different =>
          obtain ⟨first, rest, rfl⟩ := List.exists_cons_of_ne_nil filled
          have grown := ih first List.mem_cons_self (made.children first List.mem_cons_self)
            (under first List.mem_cons_self) (by omega)
          have two := geometry.two_le_branching
          rw [List.length_cons] at fits
          apply length_regroup_le_two
          rw [precededFirst, List.length_append]
          omega

end Siblings

section Joined

variable {left right : Tree α}

/-- A made tree with elements has a chunk. -/
theorem Made.chunks_ne_nil {tree : Tree α} (made : Made geometry tree)
    (filled : tree.length ≠ 0) : tree.chunks ≠ [] := by
  intro nothing
  rw [made.length_eq, elements_eq_elementsOf, nothing] at filled
  exact filled rfl

/-- The leaves of two trees joined lie at one depth if those of each of them do. -/
theorem leveled_append (madeLeft : Made geometry left) (madeRight : Made geometry right)
    (leftFilled : left.length ≠ 0) (rightFilled : right.length ≠ 0) {low high : Nat}
    (leveledLeft : Leveled geometry low left) (leveledRight : Leveled geometry high right) :
    Leveled geometry (max left.height right.height) (append geometry left right) ∨
      Leveled geometry (max left.height right.height + 1) (append geometry left right) := by
  have graded := (graded_leveled (α := α) geometry).of_made
  have level : ∀ {height tree}, Made geometry tree ∧ Leveled geometry height tree →
      Tree.height (α := α) tree = height := fun whole => whole.2.height_eq whole.1
  have leftHeight := leveledLeft.height_eq madeLeft
  have rightHeight := leveledRight.height_eq madeRight
  rw [append_of_filled (mt isEmpty_iff.mp leftFilled)
    (mt isEmpty_iff.mp rightFilled), leftHeight, rightHeight]
  split
  · next lower =>
      have siblings := graded.extended level ⟨madeRight, leveledRight⟩ ⟨madeLeft, leveledLeft⟩ lower
      rw [Nat.max_eq_left lower]
      exact leveled_ofSiblings_of_le_two (fun sibling member => (siblings sibling member).2)
        (extended_ne_nil madeRight madeLeft (madeLeft.chunks_ne_nil leftFilled))
        (length_extended_le_two madeRight madeLeft leveledRight leveledLeft lower)
  · next higher =>
      have lower := Nat.le_of_not_le higher
      have siblings := graded.preceded level ⟨madeLeft, leveledLeft⟩ ⟨madeRight, leveledRight⟩ lower
      rw [Nat.max_eq_right lower]
      exact leveled_ofSiblings_of_le_two (fun sibling member => (siblings sibling member).2)
        (preceded_ne_nil madeLeft madeRight (madeRight.chunks_ne_nil rightFilled))
        (length_preceded_le_two madeLeft madeRight leveledLeft leveledRight lower)

/-- The chunks of two joined trees are those of both, unless one of them has no elements and is left
away. -/
theorem chunks_append (madeLeft : Made geometry left) (madeRight : Made geometry right) :
    (append geometry left right).chunks =
      if right.length = 0 then left.chunks
      else if left.length = 0 then right.chunks
      else left.chunks ++ right.chunks := by
  simp only [← isEmpty_iff]
  split
  · next rightEmpty => rw [append, if_pos rightEmpty]
  · next rightFilled =>
      split
      · next leftEmpty => rw [append, if_neg rightFilled, if_pos leftEmpty]
      · next leftFilled =>
          exact chunks_append_of_filled madeLeft madeRight leftFilled rightFilled

/-- **Joining trees of any heights.** The calls that join two trees end within the sum of their
heights and a few more. The joined tree has the chunks of the first and then those of the second,
unless one of them has no elements. If both have some, and the leaves of each lie at one depth under
filled nodes that are not overfull, this is so of the joined tree, which is as high as the higher
one or one higher. -/
theorem joined_exact (madeLeft : Made geometry left) (madeRight : Made geometry right) :
    (∀ calls, left.height + right.height + 3 ≤ calls →
      joined? geometry calls left right = some (append geometry left right)) ∧
    ((append geometry left right).chunks =
      if right.length = 0 then left.chunks
      else if left.length = 0 then right.chunks
      else left.chunks ++ right.chunks) ∧
    ∀ low high, left.length ≠ 0 → right.length ≠ 0 →
      Leveled geometry low left → Leveled geometry high right →
        (append geometry left right).length ≠ 0 ∧
        Leveled geometry (append geometry left right).height (append geometry left right) ∧
        ((append geometry left right).height = max left.height right.height ∨
          (append geometry left right).height = max left.height right.height + 1) := by
  have made := made_append madeLeft madeRight
  refine ⟨fun calls enough => joined?_eq madeLeft madeRight enough,
    chunks_append madeLeft madeRight, ?_⟩
  intro low high leftFilled rightFilled leveledLeft leveledRight
  refine ⟨?_, ?_⟩
  · rw [made.length_eq, elements_append madeLeft madeRight, List.length_append,
      ← madeLeft.length_eq]
    omega
  · rcases leveled_append madeLeft madeRight leftFilled rightFilled leveledLeft leveledRight with
      same | higher
    · have level := same.height_eq made
      exact ⟨level ▸ same, .inl level⟩
    · have level := higher.height_eq made
      exact ⟨level ▸ higher, .inr level⟩

end Joined

/-- A leaf put before a node, by calls that follow the left edge of the node. -/
theorem joined_exact_of_heights :
    let small : Geometry := ⟨1, 1, by decide, by decide⟩
    let left : Tree UnitChunk := makeLeaf small [⟨[1]⟩]
    let right : Tree UnitChunk :=
      makeNode small [makeLeaf small [⟨[2]⟩, ⟨[]⟩], makeLeaf small [⟨[3]⟩]]
    let joined := append small left right
    joined? small 4 left right = some joined ∧
      joined.chunks = [⟨[1]⟩, ⟨[2]⟩, ⟨[]⟩, ⟨[3]⟩] ∧ joined.length ≠ 0 ∧
      Leveled small joined.height joined ∧ (joined.height = 1 ∨ joined.height = 2) := by
  intro small left right joined
  have madeRight : Made small right := by
    refine .node _ (List.forall_mem_cons.mpr ⟨.leaf _, ?_⟩)
    exact List.forall_mem_singleton.mpr (.leaf _)
  have leveledLeft : Leveled small 0 left := .leaf (by decide)
  have leveledRight : Leveled small 1 right := by
    refine .node (by decide) (by decide) (List.forall_mem_cons.mpr ⟨.leaf (by decide), ?_⟩)
    exact List.forall_mem_singleton.mpr (.leaf (by decide))
  obtain ⟨found, chunks, shape⟩ := joined_exact (.leaf [⟨[1]⟩]) madeRight
  exact ⟨found 4 (by decide), chunks,
    shape 0 1 (by decide) (by decide) leveledLeft leveledRight⟩

end Tree
end GraphemeRope
