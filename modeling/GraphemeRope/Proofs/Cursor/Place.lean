import GraphemeRope.Cursor.Place
import GraphemeRope.Proofs.Cursor.Slot
import GraphemeRope.Proofs.Tree.Counted

/-! # Neighbouring places

The way down to an element is found in two manners: by the lengths of slots, and from the way down
to the element beside it. Both find the same way (`GraphemeRope.Place.beside_eq`), in any tree whose
remembered lengths are right, whatever slots in it are empty. -/

namespace GraphemeRope
namespace Place

variable {α ε : Type} [Chunk α ε] {path : List (Tree α × Nat)}

/-- The element at an offset of a chunk of a row is found in the slot of the chunk. -/
theorem inChunks_eq (path : List (Tree α × Nat)) (leaf : Tree α) (start : Nat) {row : List α}
    {slot : Nat} {chunk : α} (owner : row[slot]? = some chunk) {offset : Nat}
    (within : offset < Chunk.length chunk) :
    inChunks path leaf start row (startOf (row.map Chunk.length) slot + offset) =
      .ok ⟨(leaf, start + slot) :: path, chunk, offset⟩ :=
  search_eq Chunk.length (inChunks path leaf)
    (fun slot chunk offset => .ok ⟨(leaf, slot) :: path, chunk, offset⟩) (fun _ _ _ _ => rfl) start
    owner within

/-- The element at an index of a tree of a row is found under the slot of the tree. -/
theorem descendIn_eq (path : List (Tree α × Nat)) (node : Tree α) (start : Nat)
    {row : List (Tree α)} {slot : Nat} {child : Tree α} (owner : row[slot]? = some child)
    {index : Nat} (within : index < child.length) :
    descendIn path node start row (startOf (row.map Tree.length) slot + index) =
      descend ((node, start + slot) :: path) child index :=
  search_eq Tree.length (descendIn path node)
    (fun slot child index => descend ((node, slot) :: path) child index) (fun _ _ _ _ => rfl) start
    owner within

/-- The way down to an element of a leaf ends in the chunk that owns it. -/
theorem descend_leaf {measure : Measure} {chunks : List α} {slot : Nat} {chunk : α}
    (owner : chunks[slot]? = some chunk) {offset : Nat} (within : offset < Chunk.length chunk) :
    descend path (.leaf measure chunks) (startOf (chunks.map Chunk.length) slot + offset) =
      .ok ⟨(.leaf measure chunks, slot) :: path, chunk, offset⟩ := by
  rw [descend, inChunks_eq path _ 0 owner within, Nat.zero_add]

/-- The way down to an element of a node goes on in the tree that owns it. -/
theorem descend_node {measure : Measure} {children : List (Tree α)} {slot : Nat} {child : Tree α}
    (owner : children[slot]? = some child) {index : Nat} (within : index < child.length) :
    descend path (.node measure children) (startOf (children.map Tree.length) slot + index) =
      descend ((.node measure children, slot) :: path) child index := by
  rw [descend, descendIn_eq path _ 0 owner within, Nat.zero_add]

/-- **The element at a place.** -/
theorem element?_of_descend {tree : Tree α} (counted : Tree.Counted tree) {index : Nat}
    (inside : index < tree.length) {place : Place α} (found : descend path tree index = .ok place) :
    Chunk.element? place.chunk place.offset = tree.elements[index]? := by
  induction tree generalizing path index with
  | leaf measure chunks =>
      rw [counted.length_eq] at inside
      obtain ⟨slot, length, offset, owner, within, rfl⟩ := exists_slot inside
      obtain ⟨chunk, present, rfl⟩ := exists_owner owner
      simp only [Tree.slotLengths] at found
      rw [descend_leaf present within] at found
      cases found
      exact (Tree.getElem?_elements_leaf measure present within).symm
  | node measure children ih =>
      rw [counted.length_eq] at inside
      obtain ⟨slot, length, offset, owner, within, rfl⟩ := exists_slot inside
      obtain ⟨child, present, rfl⟩ := exists_owner owner
      have member := List.mem_of_getElem? present
      simp only [Tree.slotLengths] at found
      rw [descend_node present within] at found
      rw [ih child member (counted.forall_children child member) within found]
      exact (counted.getElem?_elements_node present within).symm

variable {direction : Direction}

/-- A chunk with elements is entered at its near edge. -/
theorem edgeOffset_eq {chunk : α} (filled : 0 < Chunk.length chunk) :
    edgeOffset chunk direction = .ok (direction.edgeOf (Chunk.length chunk)) := by
  cases direction with
  | forward => rfl
  | backward => exact Guarded.sub_of_le filled

/-- A row is entered by its tree in a slot, at the nearest filled slot of that. -/
theorem enterIn_eq (path : List (Tree α × Nat)) {row : List (Tree α)} {slot : Nat}
    {child : Tree α} (owner : row[slot]? = some child) {next : Nat}
    (nearest : direction.nearest child.slotLengths = .ok (some next)) :
    enterIn direction path row slot = enter direction path child next := by
  have walked := walk_eq (enterIn direction path) (fun tree => enterIn direction path [tree] 0)
    (fun _ _ => rfl) (fun _ _ _ => rfl) owner
  rw [walked, enterIn, nearest]
  rfl

/-- **Entering a slot.** The place in a filled slot that a walk meets first is the one that lies at
the edge of the slot. -/
theorem enter_eq {tree : Tree α} (counted : Tree.Counted tree) {slot length : Nat}
    (owner : tree.slotLengths[slot]? = some length) (filled : 0 < length) :
    enter direction path tree slot =
      descend path tree (startOf tree.slotLengths slot + direction.edgeOf length) := by
  -- On each level the edge of a tree is the edge of the nearest of its filled slots.
  induction tree generalizing path slot length with
  | leaf measure chunks =>
      obtain ⟨chunk, present, rfl⟩ := exists_owner owner
      have taken : Guarded.get chunks slot = .ok chunk := by rw [Guarded.get, present]
      rw [Tree.slotLengths, descend_leaf present (Direction.edgeOf_lt filled), enter, taken]
      show (do let offset ← edgeOffset chunk direction; _) = _
      rw [edgeOffset_eq filled]
      rfl
  | node measure children ih =>
      obtain ⟨child, present, rfl⟩ := exists_owner owner
      have member := List.mem_of_getElem? present
      have below := counted.forall_children child member
      rw [Tree.Counted.length_eq below] at filled
      obtain ⟨next, inner, nearest, found, positive, edge⟩ := direction.nearest_spec filled
      rw [← Tree.Counted.length_eq below] at edge filled
      rw [Tree.slotLengths, descend_node present (Direction.edgeOf_lt filled), enter,
        enterIn_eq _ present nearest, ih child member below found positive, edge]

/-- The place in a tree that a walk meets first lies at the edge of the tree. -/
theorem edge_eq (direction : Direction) {tree : Tree α} (counted : Tree.Counted tree)
    (filled : 0 < tree.length) :
    edge direction tree = some <$> descend [] tree (direction.edgeOf tree.length) := by
  rw [counted.length_eq] at filled ⊢
  obtain ⟨slot, length, nearest, owner, positive, same⟩ := direction.nearest_spec filled
  rw [edge, nearest, ← same, ← enter_eq counted owner positive]
  rfl

/-- The place beside another: in the same chunk, or else up from it and down again. -/
def beside (direction : Direction) (place : Place α) : Except Fault (Option (Place α)) :=
  match direction.beside? (Chunk.length place.chunk) place.offset with
  | some offset => .ok (some { place with offset })
  | none => climb direction place.path

/-- Where there is a filled slot beside, the climb ends in it. -/
theorem climb_cons {tree : Tree α} {slot next : Nat}
    (beyond : direction.beyond tree.slotLengths slot = .ok (some next)) :
    climb direction ((tree, slot) :: path) = some <$> enter direction path tree next := by
  rw [climb, beyond]
  rfl

/-- Where there is no filled slot beside, the climb goes on above. -/
theorem climb_cons_of_none {tree : Tree α} {slot : Nat}
    (beyond : direction.beyond tree.slotLengths slot = .ok none) :
    climb direction ((tree, slot) :: path) = climb direction path := by
  rw [climb, beyond]
  rfl

/-- Climbing out of a slot comes to the index beside it, or out of the tree if there is none. -/
theorem climb_eq {tree : Tree α} (counted : Tree.Counted tree) {slot length offset : Nat}
    (owner : tree.slotLengths[slot]? = some length) (within : offset < length)
    (leaving : direction.beside? length offset = none) :
    climb direction ((tree, slot) :: path) =
      match direction.beside? tree.length (startOf tree.slotLengths slot + offset) with
      | some next => some <$> descend path tree next
      | none => climb direction path := by
  rw [counted.length_eq]
  rcases Direction.beyond_spec owner within leaving with
    ⟨beyond, last⟩ | ⟨next, filled, beyond, found, positive, after⟩
  · rw [last, climb_cons_of_none beyond]
  · rw [after, climb_cons beyond, enter_eq counted found positive]

/-- **The way to a neighbour.** From the way down to an element of a tree, the way down to the
element beside it is found, or if it is the last in this direction, the way on above the tree. -/
theorem beside_eq (direction : Direction) (path : List (Tree α × Nat)) {tree : Tree α}
    (counted : Tree.Counted tree) {index : Nat} (inside : index < tree.length) :
    ∃ place, descend path tree index = .ok place ∧
      place.beside direction =
        match direction.beside? tree.length index with
        | some next => some <$> descend path tree next
        | none => climb direction path := by
  induction tree generalizing path index with
  | leaf measure chunks =>
      rw [counted.length_eq] at inside
      obtain ⟨slot, length, offset, owner, within, rfl⟩ := exists_slot inside
      obtain ⟨chunk, present, rfl⟩ := exists_owner owner
      refine ⟨_, descend_leaf present within, ?_⟩
      unfold beside
      cases stay : direction.beside? (Chunk.length chunk) offset with
      | some next =>
          obtain ⟨fits, after⟩ := Direction.beside?_of_inside owner within stay
          rw [counted.length_eq, after]
          simp only [Tree.slotLengths]
          rw [descend_leaf present fits]
          rfl
      | none => exact climb_eq counted owner within stay
  | node measure children ih =>
      rw [counted.length_eq] at inside
      obtain ⟨slot, length, offset, owner, within, rfl⟩ := exists_slot inside
      obtain ⟨child, present, rfl⟩ := exists_owner owner
      have member := List.mem_of_getElem? present
      obtain ⟨place, found, step⟩ := ih child member ((.node measure children, slot) :: path)
        (counted.forall_children child member) within
      refine ⟨place, (descend_node present within).trans found, ?_⟩
      -- The way either stays below the child, or climbs to this node and goes on from its slot.
      rw [step]
      cases stay : direction.beside? child.length offset with
      | some next =>
          obtain ⟨fits, after⟩ := Direction.beside?_of_inside owner within stay
          rw [counted.length_eq, after]
          simp only [Tree.slotLengths]
          rw [descend_node present fits]
      | none => exact climb_eq counted owner within stay

end Place
end GraphemeRope
