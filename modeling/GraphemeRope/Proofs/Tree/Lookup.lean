import Mathlib.Tactic.ByContra
import GraphemeRope.Proofs.Geometry
import GraphemeRope.Proofs.Tree.Made
import GraphemeRope.Tree.Lookup

/-! # Looking up by digits and by scanning

Scanning finds the elements of every made tree. Where a tree is remembered as dense, all slots but
the last are full at every height, so that quotients by the weights of the slots lead to an element;
these are the digits of its index (`GraphemeRope.Tree.digits?_eq`). Both lookups therefore agree on
every tree whose length is an index (`GraphemeRope.Tree.elementAt_eq_element`).
-/

namespace GraphemeRope
namespace Tree

variable {α ε : Type} [Chunk α ε] {geometry : Geometry}

/-- Scanning chunks by their lengths finds the element of the row. -/
theorem scanChunks?_eq (chunks : List α) (index : Nat) :
    scanChunks? chunks index = (Chunk.elementsOf chunks)[index]? := by
  induction chunks generalizing index with
  | nil => rfl
  | cons chunk rest ih =>
      rw [scanChunks?, Chunk.elementsOf_cons]
      split
      · next inside => rw [List.getElem?_append_left inside, Chunk.element?]
      · next outside =>
        rw [List.getElem?_append_right (Nat.not_lt.mp outside), ih, Chunk.length]

/-- Scanning trees by their lengths finds the element of the row, if scanning each of them does. -/
theorem scanChildren?_eq {trees : List (Tree α)}
    (lengths : ∀ tree ∈ trees, tree.length = tree.elements.length)
    (scans : ∀ tree ∈ trees, ∀ index, tree.scan? index = tree.elements[index]?) (index : Nat) :
    scanChildren? trees index = (Chunk.elementsOf (chunksOfAll trees))[index]? := by
  induction trees generalizing index with
  | nil => rfl
  | cons tree rest ih =>
      rw [List.forall_mem_cons] at lengths scans
      rw [scanChildren?, chunksOfAll_cons, Chunk.elementsOf_append, ← elements_eq_elementsOf,
        lengths.1]
      split
      · next inside => rw [List.getElem?_append_left inside, scans.1]
      · next outside =>
        rw [List.getElem?_append_right (Nat.not_lt.mp outside), ih lengths.2 scans.2]

/-- Scanning finds the element at an index. -/
theorem Made.scan?_eq {tree : Tree α} (made : Made geometry tree) (index : Nat) :
    tree.scan? index = tree.elements[index]? := by
  induction made generalizing index with
  | leaf chunks => exact scanChunks?_eq chunks index
  | node children made ih =>
      exact scanChildren?_eq (fun child member => (made child member).length_eq) ih index

/-- What it means for a leaf to be dense. -/
theorem dense_makeLeaf {chunks : List α} (dense : (makeLeaf geometry chunks).isDense = true) :
    chunks.length ≤ geometry.branching ∧
      (∀ chunk ∈ chunks.dropLast, Chunk.length chunk = geometry.leafLength) ∧
      ∀ chunk ∈ chunks, Chunk.length chunk ≤ geometry.leafLength := by
  simp only [isDense, measure, makeLeaf, Bool.and_eq_true, decide_eq_true_eq] at dense
  refine ⟨dense.1, ?_, ?_⟩
  · intro chunk member
    exact of_decide_eq_true (((packed_iff _).mp dense.2).1 chunk member)
  · intro chunk member
    refine of_decide_eq_true (forall_of_packed ?_ dense.2 chunk member)
    intro entry full
    exact decide_eq_true (Nat.le_of_eq (of_decide_eq_true full))

omit [Chunk α ε] in
/-- What it means for a node to be dense. -/
theorem dense_makeNode {children : List (Tree α)}
    (dense : (makeNode geometry children).isDense = true) :
    children.length ≤ geometry.branching ∧
      (∀ child ∈ children.dropLast, child.length = geometry.capacity child.height) ∧
      ∀ child ∈ children, child.isDense = true ∧ child.height + 1 = heightAbove children := by
  simp only [isDense, measure, makeNode, Bool.and_eq_true, decide_eq_true_eq] at dense
  refine ⟨dense.1, ?_, ?_⟩
  · intro child member
    have full := ((packed_iff _).mp dense.2).1 child member
    simp only [Bool.and_eq_true, decide_eq_true_eq] at full
    exact full.2
  · intro child member
    have fits := forall_of_packed (fun entry full => (Bool.and_eq_true_iff.mp full).1) dense.2
      child member
    simp only [Bool.and_eq_true, decide_eq_true_eq] at fits
    exact fits

/-- A dense tree holds no more than a slot of the height above it does when full. -/
theorem Made.length_le_weight {tree : Tree α} (made : Made geometry tree)
    (dense : tree.isDense = true) : tree.length ≤ geometry.weight (tree.height + 1) := by
  have bound {lengths : List Nat} {width : Nat} (few : lengths.length ≤ geometry.branching)
      (small : ∀ length ∈ lengths, length ≤ width) :
      total lengths ≤ width * geometry.branching := by
    calc total lengths ≤ lengths.length * width := total_le_mul small
      _ ≤ geometry.branching * width := Nat.mul_le_mul_right width few
      _ = width * geometry.branching := Nat.mul_comm _ _
  induction made with
  | leaf chunks =>
      obtain ⟨few, _, small⟩ := dense_makeLeaf dense
      rw [show (makeLeaf geometry chunks).height = 0 from rfl, Geometry.weight_succ,
        Geometry.weight_zero]
      refine bound (by rw [List.length_map]; exact few) ?_
      intro length member
      obtain ⟨chunk, present, rfl⟩ := List.mem_map.mp member
      exact small chunk present
  | node children made ih =>
      obtain ⟨few, _, fits⟩ := dense_makeNode dense
      rw [show (makeNode geometry children).height = heightAbove children from rfl,
        Geometry.weight_succ]
      refine bound (by rw [List.length_map]; exact few) ?_
      intro length member
      obtain ⟨child, present, rfl⟩ := List.mem_map.mp member
      rw [← (fits child present).2]
      exact ih child present (fits child present).1

/-- Following digits in a row goes on in the tree of the slot, if there is one. -/
theorem digitsIn?_eq (children : List (Tree α)) (slot index : Nat) :
    digitsIn? geometry children slot index =
      (children[slot]?).bind (·.digits? geometry index) := by
  induction children generalizing slot with
  | nil => rfl
  | cons child rest ih =>
      cases slot with
      | zero => rfl
      | succ slot => rw [digitsIn?, ih, List.getElem?_cons_succ]

omit [Chunk α ε] in
/-- Among trees whose slots have a weight beyond every index, all elements are in the first. -/
theorem getElem?_flatten_of_saturated {blocks : List (List ε)} {limit index : Nat}
    (full : ∀ block ∈ blocks.dropLast, block.length = limit - 1)
    (bounded : blocks.flatten.length < limit) (inside : index < blocks.flatten.length) :
    blocks.flatten[index]? = (blocks[0]?).bind (·[index]?) := by
  cases blocks with
  | nil => rfl
  | cons block rest =>
      rw [List.getElem?_cons_zero, Option.bind_some, List.flatten_cons]
      cases rest with
      | nil => simp only [List.flatten_nil, List.append_nil]
      | cons next rest =>
          have first := full block (by rw [List.dropLast_cons_cons]; exact List.mem_cons_self)
          exact List.getElem?_append_left (by omega)

/-- In a dense node the quotient by the weight of its slots selects the slot of an element, and the
remainder the element in it. -/
theorem getElem?_of_dense {children : List (Tree α)}
    (made : ∀ child ∈ children, Made geometry child)
    (dense : (makeNode geometry children).isDense = true)
    (bounded : (makeNode geometry children).length < 2 ^ Geometry.indexBits) {index : Nat}
    (inside : index < (makeNode geometry children).length) :
    (makeNode geometry children).elements[index]? =
      (children[index / geometry.weight (heightAbove children)]?).bind
        (·.elements[index % geometry.weight (heightAbove children)]?) := by
  obtain ⟨_, full, fits⟩ := dense_makeNode dense
  have elements_eq : (makeNode geometry children).elements =
      (children.map elements).flatten := by
    rw [makeNode, elements_node, List.flatMap_def]
  have length_eq := (Made.node children made).length_eq
  rw [elements_eq] at length_eq ⊢
  have capacities : ∀ block ∈ (children.map elements).dropLast,
      block.length = geometry.capacity (heightAbove children - 1) := by
    intro block member
    rw [← List.map_dropLast] at member
    obtain ⟨child, present, rfl⟩ := List.mem_map.mp member
    have whole := List.dropLast_subset _ present
    have height := (fits child whole).2
    rw [← (made child whole).length_eq, full child present, ← height, Nat.add_sub_cancel]
  have above : heightAbove children - 1 + 1 = heightAbove children :=
    Nat.sub_add_cancel (heightAbove_pos children)
  rcases Nat.lt_or_ge (geometry.weight (heightAbove children)) (2 ^ Geometry.indexBits) with
    small | large
  · have capacity : geometry.capacity (heightAbove children - 1) =
        geometry.weight (heightAbove children) := by
      rw [geometry.capacity_of_lt (by rw [above]; exact small), above]
    rw [capacity] at capacities
    rw [getElem?_flatten_of_width (geometry.weight_pos _) capacities, List.getElem?_map,
      Option.bind_map]
    · rfl
    · intro block member
      obtain ⟨child, present, rfl⟩ := List.mem_map.mp member
      rw [← (made child present).length_eq, ← (fits child present).2]
      exact (made child present).length_le_weight (fits child present).1
  · have capacity : geometry.capacity (heightAbove children - 1) = 2 ^ Geometry.indexBits - 1 :=
      geometry.capacity_of_le (by rw [above]; exact large)
    rw [capacity] at capacities
    have early : index < geometry.weight (heightAbove children) :=
      Nat.lt_of_lt_of_le (Nat.lt_trans inside bounded) large
    rw [length_eq] at bounded inside
    rw [Nat.div_eq_of_lt early, Nat.mod_eq_of_lt early,
      getElem?_flatten_of_saturated capacities bounded inside, List.getElem?_map, Option.bind_map]
    rfl

/-- **Digits lead to elements.** In a dense tree the digits of an index lead to the element at what
is left of the index below the digit of the slot that the tree is in. -/
theorem digits?_eq {tree : Tree α} (made : Made geometry tree) (dense : tree.isDense = true)
    (bounded : tree.length < 2 ^ Geometry.indexBits) {index : Nat}
    (small : index < 2 ^ Geometry.indexBits)
    (inside : index % geometry.weight (tree.height + 1) < tree.length) :
    tree.digits? geometry index =
      tree.elements[index % geometry.weight (tree.height + 1)]? := by
  induction made with
  | leaf chunks =>
      obtain ⟨_, full, fits⟩ := dense_makeLeaf dense
      have height : (makeLeaf geometry chunks).height = 0 := rfl
      have widths : ∀ block ∈ (chunks.map Chunk.elements).dropLast,
          block.length = geometry.weight 0 := by
        intro block member
        rw [← List.map_dropLast] at member
        obtain ⟨chunk, present, rfl⟩ := List.mem_map.mp member
        rw [geometry.weight_zero]
        exact full chunk present
      have bounds : ∀ block ∈ chunks.map Chunk.elements, block.length ≤ geometry.weight 0 := by
        intro block member
        obtain ⟨chunk, present, rfl⟩ := List.mem_map.mp member
        rw [geometry.weight_zero]
        exact fits chunk present
      rw [height, elements_eq_elementsOf, chunks_makeLeaf, Chunk.elementsOf, List.flatMap_def,
        getElem?_flatten_of_width (geometry.weight_pos 0) widths bounds, List.getElem?_map,
        Option.bind_map, ← geometry.slot_eq_div small, geometry.mod_weight_succ_mod,
        geometry.weight_zero]
      rfl
  | node children made ih =>
      obtain ⟨_, _, fits⟩ := dense_makeNode dense
      have height : (makeNode geometry children).height = heightAbove children := rfl
      rw [height] at inside ⊢
      have found := getElem?_of_dense made dense bounded inside
      rw [← geometry.slot_eq_div small, geometry.mod_weight_succ_mod] at found
      rw [found]
      change digitsIn? geometry children (geometry.slot index (heightAbove children)) index = _
      rw [digitsIn?_eq]
      cases selected : children[geometry.slot index (heightAbove children)]? with
      | none => rfl
      | some child =>
          have member := List.mem_of_getElem? selected
          obtain ⟨childDense, childHeight⟩ := fits child member
          have present : index % geometry.weight (heightAbove children) < child.length := by
            rw [selected, Option.bind_some] at found
            rw [(made child member).length_eq]
            by_contra outside
            rw [List.getElem?_eq_none (Nat.not_lt.mp outside),
              List.getElem?_eq_none_iff] at found
            rw [(Made.node children made).length_eq] at inside
            exact Nat.not_lt.mpr found inside
          have shorter : child.length ≤ (makeNode geometry children).length :=
            le_total_of_mem (List.mem_map_of_mem member)
          simp only [Option.bind_some]
          have deeper := ih child member childDense (Nat.lt_of_le_of_lt shorter bounded)
          rw [childHeight] at deeper
          exact deeper present

omit [Chunk α ε] in
/-- A search that finds the elements of a tree makes a lookup that refuses what is past its end. -/
theorem lookup_eq {tree : Tree α} {elements : List ε} (length_eq : tree.length = elements.length)
    {search? : Tree α → Nat → Option ε} {index : Nat}
    (found : index < elements.length → search? tree index = elements[index]?) :
    tree.lookup index search? =
      if inside : index < elements.length then .ok elements[index]
      else .error (.indexOutOfRange index elements.length) := by
  rw [lookup, length_eq]
  by_cases inside : index < elements.length
  · rw [if_pos inside, found inside, dif_pos inside, List.getElem?_eq_getElem inside]
  · rw [if_neg inside, dif_neg inside]

/-- A lookup by scanning finds the element, or refuses an index past the end. -/
theorem Made.element_eq {tree : Tree α} (made : Made geometry tree) (index : Nat) :
    tree.element index =
      if inside : index < tree.elements.length then .ok tree.elements[index]
      else .error (.indexOutOfRange index tree.elements.length) :=
  lookup_eq made.length_eq fun _ => made.scan?_eq index

/-- A lookup finds the element, or refuses an index past the end. -/
theorem Made.elementAt_eq {tree : Tree α} (made : Made geometry tree)
    (bounded : tree.length < 2 ^ Geometry.indexBits) (index : Nat) :
    tree.elementAt geometry index =
      if inside : index < tree.elements.length then .ok tree.elements[index]
      else .error (.indexOutOfRange index tree.elements.length) := by
  refine lookup_eq made.length_eq fun inside => ?_
  rw [← made.length_eq] at inside
  split
  · next dense =>
    have below : index % geometry.weight (tree.height + 1) = index :=
      Nat.mod_eq_of_lt (Nat.lt_of_lt_of_le inside (made.length_le_weight dense))
    rw [digits?_eq made dense bounded (Nat.lt_trans inside bounded) (by rw [below]; exact inside),
      below]
  · exact made.scan?_eq index

/-- **Both lookups agree.** In a made tree whose length is an index, looking up by digits and by
scanning give the element at an index, or refuse an index past the end. -/
theorem elementAt_eq_element {tree : Tree α} (made : Made geometry tree)
    (bounded : tree.length < 2 ^ Geometry.indexBits) (index : Nat) :
    tree.length = tree.elements.length ∧
      tree.elementAt geometry index = tree.element index ∧
      tree.element index =
        if inside : index < tree.elements.length then .ok tree.elements[index]
        else .error (.indexOutOfRange index tree.length) := by
  refine ⟨made.length_eq, ?_, ?_⟩
  · rw [made.elementAt_eq bounded, made.element_eq]
  · rw [made.element_eq, made.length_eq]

/-- A root over a full leaf and one that is not, where the digits of an index are followed. -/
theorem elementAt_eq_element_of_two_leaves :
    let geometry : Geometry := ⟨1, 1, by decide, by decide⟩
    let tree : Tree UnitChunk :=
      makeNode geometry [makeLeaf geometry [⟨[97, 98]⟩, ⟨[99, 100]⟩], makeLeaf geometry [⟨[101]⟩]]
    tree.isDense = true ∧ tree.elementAt geometry 4 = tree.element 4 := by
  refine ⟨by decide, (elementAt_eq_element (.node _ ?_) (by decide) 4).2.1⟩
  rw [List.forall_mem_cons, List.forall_mem_singleton]
  exact ⟨.leaf _, .leaf _⟩

end Tree
end GraphemeRope
