import GraphemeRope.Guarded.Tree
import GraphemeRope.Proofs.Guarded.Chunk
import GraphemeRope.Proofs.Tree.Leveled
import GraphemeRope.Proofs.Tree.Lookup

/-! # Guarded operations of trees are safe

A lookup in a tree whose lengths are right meets no fault, nor does an insertion if moreover every
node has trees below it, and a cut meets none in any tree. All give what the unguarded operations
give. -/

namespace GraphemeRope

namespace Guarded

variable {α ε : Type} [Chunk α ε] [Access α ε] [LawfulAccess α] {geometry : Geometry}

section Lookups

/-- The slot that an index lies in is found, and the number of elements before it. -/
theorem owningSlot_eq (start before : Nat) {lengths : List Nat} {slot length offset : Nat}
    (owner : lengths[slot]? = some length) (within : offset < length) :
    owningSlot start before (before + (startOf lengths slot + offset)) lengths =
      (start + slot, before + startOf lengths slot) := by
  induction lengths generalizing start before slot with
  | nil => rw [List.getElem?_nil] at owner; cases owner
  | cons first rest ih =>
      cases slot with
      | zero =>
          cases owner
          rw [startOf_zero, Nat.zero_add, owningSlot, if_pos (Nat.add_lt_add_left within before)]
          rfl
      | succ slot =>
          rw [startOf_cons, owningSlot, if_neg (by omega), Nat.add_assoc first,
            ← Nat.add_assoc before, ih (start + 1) (before + first) owner, Nat.add_assoc start,
            Nat.add_comm 1 slot, Nat.add_assoc before]

omit [LawfulAccess α] in
/-- A scan goes on in the tree of the slot. -/
theorem scanIn_eq {row : List (Tree α)} {slot : Nat} {child : Tree α}
    (owner : row[slot]? = some child) (index : Nat) : scanIn row slot index = scan child index :=
  walk_eq (scanIn · · index) (scan · index) (fun _ _ => rfl) (fun _ _ _ => rfl) owner

/-- **Scanning is safe** for every index of a tree whose lengths are right. -/
theorem scan_eq {tree : Tree α} (counted : Tree.Counted tree) {index : Nat}
    (inside : index < tree.length) :
    ∃ element, tree.elements[index]? = some element ∧ scan tree index = .ok element := by
  induction tree generalizing index with
  | leaf measure chunks =>
      rw [counted.length_eq] at inside
      obtain ⟨slot, length, offset, owner, within, rfl⟩ := exists_slot inside
      obtain ⟨chunk, present, rfl⟩ := exists_owner owner
      have found := owningSlot_eq 0 0 owner within
      have element := List.getElem?_eq_getElem within
      have remaining := Nat.add_sub_cancel_left (startOf (chunks.map Chunk.length) slot) offset
      rw [Nat.zero_add, Nat.zero_add, Nat.zero_add] at found
      refine ⟨_, (Tree.getElem?_elements_leaf measure present within).trans element, ?_⟩
      simp only [Tree.slotLengths] at found ⊢
      simp only [scan, found, sub_of_le (Nat.le_add_right _ offset), remaining,
        get_of_getElem? present, ok_bind]
      exact LawfulAccess.read_eq element
  | node measure children ih =>
      rw [counted.length_eq] at inside
      obtain ⟨slot, length, offset, owner, within, rfl⟩ := exists_slot inside
      obtain ⟨child, present, rfl⟩ := exists_owner owner
      have member := List.mem_of_getElem? present
      have found := owningSlot_eq 0 0 owner within
      have remaining := Nat.add_sub_cancel_left (startOf (children.map Tree.length) slot) offset
      rw [Nat.zero_add, Nat.zero_add, Nat.zero_add] at found
      obtain ⟨element, shown, read⟩ := ih child member (counted.forall_children child member) within
      refine ⟨element, (counted.getElem?_elements_node present within).trans shown, ?_⟩
      simp only [Tree.slotLengths] at found ⊢
      simp only [scan, found, sub_of_le (Nat.le_add_right _ offset), remaining, ok_bind,
        scanIn_eq present, read]

omit [Chunk α ε] [LawfulAccess α] in
/-- Digits are followed further in the tree of the slot. -/
theorem followDigitsIn_eq {row : List (Tree α)} {slot : Nat} {child : Tree α}
    (owner : row[slot]? = some child) (index : Nat) :
    followDigitsIn geometry row slot index = followDigits geometry child index :=
  walk_eq (followDigitsIn geometry · · index) (followDigits geometry · index) (fun _ _ => rfl)
    (fun _ _ _ => rfl) owner

/-- Where following the digits of an index leads to an element, it stays within the slots. -/
theorem followDigits_eq {tree : Tree α} {index : Nat} {element : ε}
    (found : tree.digits? geometry index = some element) :
    followDigits geometry tree index = .ok element := by
  induction tree with
  | leaf measure chunks =>
      obtain ⟨chunk, present, read⟩ := Option.bind_eq_some_iff.mp found
      rw [followDigits, get_of_getElem? present, ok_bind, LawfulAccess.read_eq read]
  | node measure children ih =>
      rw [Tree.digits?, Tree.digitsIn?_eq] at found
      obtain ⟨child, present, deeper⟩ := Option.bind_eq_some_iff.mp found
      rw [followDigits, followDigitsIn_eq present,
        ih child (List.mem_of_getElem? present) deeper]

omit [Chunk α ε] [Access α ε] [LawfulAccess α] in
/-- What a lookup finds was found by its search. -/
theorem search?_of_lookup {tree : Tree α} {index : Nat} {search? : Tree α → Nat → Option ε}
    {element : ε} (found : tree.lookup index search? = .ok element) :
    search? tree index = some element := by
  unfold Tree.lookup at found
  split at found
  · next present =>
      cases found
      exact (Option.ite_none_right_eq_some.mp present).2
  · cases found

/-- **Lookups are safe** in a made tree whose length is an index. -/
theorem treeElementAt_eq {tree : Tree α} (made : Tree.Made geometry tree)
    (bounded : tree.length < 2 ^ Geometry.indexBits) (index : Nat) :
    treeElementAt geometry tree index = .ok (tree.elementAt geometry index) := by
  have result := made.elementAt_eq bounded index
  by_cases outside : tree.length ≤ index
  · rw [treeElementAt, lookup, if_pos outside, result, dif_neg, made.length_eq]
    rw [← made.length_eq]
    exact Nat.not_lt_of_le outside
  · have inside := Nat.lt_of_not_le outside
    have within := inside
    rw [made.length_eq] at within
    rw [dif_pos within] at result
    have searched : (if tree.isDense then followDigits geometry else scan) tree index =
        .ok tree.elements[index] := by
      -- Scanning needs right lengths only; digits are followed where they lead to an element.
      by_cases dense : tree.isDense = true
      · have found := search?_of_lookup result
        rw [if_pos dense] at found ⊢
        exact followDigits_eq found
      · obtain ⟨element, shown, read⟩ := scan_eq made.counted inside
        rw [List.getElem?_eq_getElem within] at shown
        cases shown
        rw [if_neg dense, read]
    rw [treeElementAt, lookup, if_neg outside, searched, result]
    rfl

end Lookups

section Insertions

/-- The slot that takes content is found: no slot before it reaches up to the index. -/
theorem takingSlot_spec (start before : Nat) {lengths : List Nat} (filled : lengths ≠ [])
    {index : Nat} (inside : index ≤ total lengths) :
    ∃ slot length offset,
      takingSlot (start + (lengths.length - 1)) start before (before + index) lengths =
        (start + slot, before + startOf lengths slot) ∧
      lengths[slot]? = some length ∧ offset ≤ length ∧ index = startOf lengths slot + offset ∧
      ∀ earlier < slot, startOf lengths (earlier + 1) < index := by
  -- What was passed goes into `start` and `before`, which are therefore any numbers.
  induction lengths generalizing start before index with
  | nil => exact absurd rfl filled
  | cons first rest ih =>
      rw [total] at inside
      by_cases here : index ≤ first
      · refine ⟨0, first, index, ?_, rfl, here, (Nat.zero_add _).symm, ?_⟩
        · rw [takingSlot, if_pos (.inl (Nat.add_le_add_left here before))]
          rfl
        · exact fun earlier absurd => (Nat.not_lt_zero earlier absurd).elim
      · have more : rest ≠ [] := by
          rintro rfl
          exact here inside
        have count : 0 < rest.length := List.length_pos_iff.mpr more
        have within : index - first ≤ total rest := Nat.sub_le_of_le_add (Nat.add_comm _ _ ▸ inside)
        obtain ⟨slot, length, offset, found, owner, fits, place, past⟩ :=
          ih (start + 1) (before + first) more within
        have last : start + 1 + (rest.length - 1) = start + ((first :: rest).length - 1) := by
          rw [List.length_cons]
          omega
        rw [last, show before + first + (index - first) = before + index by omega] at found
        refine ⟨slot + 1, length, offset, ?_, owner, fits, by rw [startOf_cons]; omega, ?_⟩
        · rw [takingSlot, if_neg, found, startOf_cons]
          · exact Prod.ext (by omega) (Nat.add_assoc _ _ _)
          · rw [List.length_cons]
            omega
        · intro earlier before
          cases earlier with
          | zero =>
              rw [startOf_cons, startOf_zero]
              omega
          | succ earlier =>
              have later := past earlier (Nat.lt_of_succ_lt_succ before)
              rw [startOf_cons]
              omega

omit [Chunk α ε] [Access α ε] [LawfulAccess α] in
/-- What a row becomes when something is put into the first slot that reaches up to an index: the
other slots are left as they are. -/
theorem put_of_owner {β : Type} {measure : β → Nat} {put : β → Nat → List β}
    (inRow : List β → Nat → List β)
    (step : ∀ entry rest index, inRow (entry :: rest) index =
      if index ≤ measure entry || rest.isEmpty then put entry index ++ rest
      else entry :: inRow rest (index - measure entry))
    {row : List β} {slot : Nat} {entry : β} (owner : row[slot]? = some entry) {offset : Nat}
    (fits : offset ≤ measure entry)
    (past : ∀ earlier < slot,
      startOf (row.map measure) (earlier + 1) < startOf (row.map measure) slot + offset) :
    inRow row (startOf (row.map measure) slot + offset) =
      row.take slot ++ put entry offset ++ row.drop (slot + 1) := by
  induction row generalizing slot with
  | nil => rw [List.getElem?_nil] at owner; cases owner
  | cons first rest ih =>
      cases slot with
      | zero =>
          cases owner
          rw [startOf_zero, Nat.zero_add, step, if_pos]
          · rfl
          · rw [Bool.or_eq_true, decide_eq_true_eq]
            exact .inl fits
      | succ slot =>
          rw [List.map_cons] at past ⊢
          have beyond := past 0 (Nat.succ_pos slot)
          have more : rest.isEmpty = false := by
            cases rest with
            | nil => cases owner
            | cons _ _ => rfl
          have deeper := ih owner fun earlier before => by
            have later := past (earlier + 1) (Nat.succ_lt_succ before)
            rw [startOf_cons, startOf_cons] at later
            omega
          rw [startOf_cons, startOf_cons, startOf_zero] at beyond
          rw [startOf_cons, step, if_neg, Nat.add_assoc, Nat.add_sub_cancel_left, deeper]
          · rfl
          · simp only [more, Bool.or_false, decide_eq_true_eq]
            omega

variable {content : α}

/-- **Putting content into a leaf is safe.** -/
theorem insertedChunks_eq {chunks : List α} {index : Nat}
    (inside : index ≤ total (chunks.map Chunk.length)) :
    insertedChunks geometry content chunks index =
      .ok (Tree.insertedChunks geometry content chunks index) := by
  by_cases vacant : chunks = []
  · subst vacant
    exact LawfulAccess.rechunk_eq _ _
  · have widths : chunks.map Chunk.length ≠ [] :=
      fun nothing => vacant (List.map_eq_nil_iff.mp nothing)
    obtain ⟨slot, length, offset, found, owner, fits, rfl, past⟩ :=
      takingSlot_spec 0 0 widths inside
    obtain ⟨chunk, present, rfl⟩ := exists_owner owner
    obtain ⟨early, _⟩ := List.getElem?_eq_some_iff.mp present
    rw [List.length_map, Nat.zero_add, Nat.zero_add, Nat.zero_add, Nat.zero_add] at found
    have put := put_of_owner (Tree.insertedChunks geometry content) (fun _ _ _ => rfl) present fits
      past
    simp only [insertedChunks, List.isEmpty_iff, vacant, if_false, found, get_of_getElem? present,
      ok_bind, sub_of_le (Nat.le_add_right _ offset), Nat.add_sub_cancel_left, slice_front fits,
      slice_rear fits, LawfulAccess.rechunk_eq, range_of_le (Nat.zero_le slot) (Nat.le_of_lt early),
      range_of_le early (Nat.le_refl chunks.length), List.drop_zero, List.take_length]
    exact congrArg Except.ok put.symm

omit [LawfulAccess α] in
/-- An insertion goes on in the tree of the slot. -/
theorem insertedIn_eq {row : List (Tree α)} {slot : Nat} {child : Tree α}
    (owner : row[slot]? = some child) (index : Nat) :
    insertedIn geometry content row slot index = inserted geometry content child index :=
  walk_eq (insertedIn geometry content · · index) (inserted geometry content · index)
    (fun _ _ => rfl) (fun _ _ _ => rfl) owner

/-- Putting content into a tree is safe where every node has trees below it. -/
theorem inserted_eq {tree : Tree α} (counted : Tree.Counted tree) (grounded : Tree.Grounded tree)
    {index : Nat} (inside : index ≤ tree.length) :
    inserted geometry content tree index = .ok (tree.inserted geometry content index) := by
  induction tree generalizing index with
  | leaf measure chunks =>
      have within : index ≤ total (chunks.map Chunk.length) := counted.length_eq ▸ inside
      rw [inserted, insertedChunks_eq within]
      rfl
  | node measure children ih =>
      obtain ⟨filled, below⟩ := grounded.children
      have within : index ≤ total (children.map Tree.length) := counted.length_eq ▸ inside
      have widths : children.map Tree.length ≠ [] :=
        fun nothing => filled (List.map_eq_nil_iff.mp nothing)
      obtain ⟨slot, length, offset, found, owner, offset_le, rfl, past⟩ :=
        takingSlot_spec 0 0 widths within
      obtain ⟨child, present, rfl⟩ := exists_owner owner
      obtain ⟨early, _⟩ := List.getElem?_eq_some_iff.mp present
      have member := List.mem_of_getElem? present
      rw [List.length_map, Nat.zero_add, Nat.zero_add, Nat.zero_add, Nat.zero_add] at found
      have put := put_of_owner (Tree.insertedIn geometry content) (fun _ _ _ => rfl) present
        offset_le past
      simp only [inserted, found, range_of_le (Nat.zero_le slot) (Nat.le_of_lt early), ok_bind,
        sub_of_le (Nat.le_add_right _ offset), Nat.add_sub_cancel_left, insertedIn_eq present,
        ih child member (counted.forall_children child member) (below child member) offset_le,
        range_of_le early (Nat.le_refl children.length), List.drop_zero, List.take_length]
      exact congrArg (fun row => Except.ok (Tree.regroup geometry row)) put.symm

/-- **Insertions are safe** in a tree with right lengths where every node has trees below it. -/
theorem insertTree_eq {tree : Tree α} (counted : Tree.Counted tree)
    (grounded : Tree.Grounded tree) (index : Nat) (content : α) :
    insertTree geometry tree index content = .ok (tree.insert geometry index content) := by
  rw [insertTree, Tree.insert]
  by_cases outside : tree.length < index
  · rw [if_pos outside, if_pos outside]
  · rw [if_neg outside, if_neg outside]
    by_cases vacant : Chunk.isEmpty content = true
    · rw [if_pos vacant, if_pos vacant]
    · rw [if_neg vacant, if_neg vacant,
        inserted_eq counted grounded (Nat.le_of_not_lt outside)]
      rfl

end Insertions

section Cuts

/-- The chunks before a cut are taken without a fault. -/
theorem chunksBefore_eq (count before : Nat) (row : List α) :
    chunksBefore count before row = .ok (Tree.chunksBefore row (count - before)) := by
  induction row generalizing before with
  | nil => rfl
  | cons chunk rest ih =>
      rw [chunksBefore, Tree.chunksBefore, ih]
      by_cases done : count ≤ before
      · rw [if_pos done, if_pos (Nat.sub_eq_zero_of_le done)]
      · have later : count - (before + Chunk.length chunk) = count - before - Chunk.length chunk :=
          (Nat.sub_sub _ _ _).symm
        rw [if_neg done, if_neg (by omega), sub_of_le (by omega), ok_bind, later]
        by_cases whole : Chunk.length chunk ≤ count - before
        · rw [if_pos whole, if_pos (Nat.min_eq_right whole)]
          rfl
        · have cut := Nat.le_of_not_le whole
          have spent : count - before - Chunk.length chunk = 0 := Nat.sub_eq_zero_of_le cut
          rw [if_neg whole, Nat.min_eq_left cut, if_neg (by omega), slice_front cut, spent]
          cases rest with
          | nil => rfl
          | cons next rest => rfl

omit [LawfulAccess α] in
/-- The trees before a cut are taken without a fault, if that is so of each of the row. -/
theorem treesBefore_eq {row : List (Tree α)}
    (cut : ∀ tree ∈ row, ∀ count, before? geometry tree count = .ok (tree.before? geometry count))
    (count before : Nat) :
    treesBefore geometry count before row =
      .ok (Tree.treesBefore geometry row (count - before)) := by
  induction row generalizing before with
  | nil => rfl
  | cons tree rest ih =>
      rw [List.forall_mem_cons] at cut
      rw [treesBefore, Tree.treesBefore, ih cut.2]
      by_cases done : count ≤ before
      · rw [if_pos done, if_pos (Nat.sub_eq_zero_of_le done)]
      · rw [if_neg done, if_neg (by omega), sub_of_le (by omega), ok_bind, cut.1, Nat.sub_sub]
        rfl

/-- **Keeping what is before a position is safe** in any tree. -/
theorem before?_eq (tree : Tree α) (count : Nat) :
    before? geometry tree count = .ok (tree.before? geometry count) := by
  induction tree generalizing count with
  | leaf measure chunks =>
      rw [before?, Tree.before?, chunksBefore_eq]
      split
      · rfl
      · split
        · rfl
        · rfl
  | node measure children ih =>
      rw [before?, Tree.before?, treesBefore_eq ih]
      split
      · rfl
      · split
        · rfl
        · rfl

omit [LawfulAccess α] in
/-- Once the first chunk is kept, all later ones are. -/
theorem chunksFrom_of_lt {start before : Nat} (reached : start < before) (row : List α) :
    chunksFrom start before row = .ok row := by
  induction row generalizing before with
  | nil => rfl
  | cons chunk rest ih =>
      have later : start < before + Chunk.length chunk := Nat.lt_add_right _ reached
      rw [chunksFrom, if_pos later, if_pos (Nat.sub_eq_zero_of_le (Nat.le_of_lt reached)), ih later]
      rfl

/-- The chunks after a cut are taken without a fault. -/
theorem chunksFrom_eq {start before : Nat} (passed : before ≤ start) (row : List α) :
    chunksFrom start before row = .ok (Tree.chunksFrom row (start - before)) := by
  induction row generalizing before with
  | nil => rfl
  | cons chunk rest ih =>
      rw [chunksFrom, Tree.chunksFrom]
      by_cases here : start < before + Chunk.length chunk
      · have near : start - before < Chunk.length chunk := by omega
        rw [if_pos here, if_pos near, chunksFrom_of_lt here]
        by_cases whole : start - before = 0
        · rw [if_pos whole, if_pos whole]
          rfl
        · rw [if_neg whole, if_neg whole, slice_rear (Nat.le_of_lt near)]
          rfl
      · rw [if_neg here, if_neg (by omega), ih (Nat.le_of_not_lt here), Nat.sub_sub]

omit [LawfulAccess α] in
theorem from?_zero (tree : Tree α) : from? geometry tree 0 = .ok (some tree) := by
  cases tree with
  | leaf measure chunks => rfl
  | node measure children => rfl

omit [LawfulAccess α] in
/-- Trees that lie behind the cut are kept as they are. -/
theorem treesFrom_of_lt {start before : Nat} (reached : start < before) (row : List (Tree α)) :
    treesFrom geometry start before row = .ok row := by
  induction row generalizing before with
  | nil => rfl
  | cons tree rest ih =>
      have later : start < before + tree.length := Nat.lt_add_right _ reached
      rw [treesFrom, if_pos later, Nat.sub_eq_zero_of_le (Nat.le_of_lt reached), from?_zero,
        ih later]
      rfl

omit [LawfulAccess α] in
/-- The trees after a cut are taken without a fault, if that is so of each of the row. -/
theorem treesFrom_eq {row : List (Tree α)}
    (cut : ∀ tree ∈ row, ∀ start, from? geometry tree start = .ok (tree.from? geometry start))
    {start before : Nat} (passed : before ≤ start) :
    treesFrom geometry start before row =
      .ok (Tree.treesFrom geometry row (start - before)) := by
  induction row generalizing before with
  | nil => rfl
  | cons tree rest ih =>
      rw [List.forall_mem_cons] at cut
      rw [treesFrom, Tree.treesFrom]
      by_cases here : start < before + tree.length
      · rw [if_pos here, if_pos (by omega), treesFrom_of_lt here, cut.1]
        rfl
      · rw [if_neg here, if_neg (by omega), ih cut.2 (Nat.le_of_not_lt here), Nat.sub_sub]

/-- **Keeping what is from a position on is safe** in any tree. -/
theorem from?_eq (tree : Tree α) (start : Nat) :
    from? geometry tree start = .ok (tree.from? geometry start) := by
  induction tree generalizing start with
  | leaf measure chunks =>
      rw [from?, Tree.from?, chunksFrom_eq (Nat.zero_le start)]
      split
      · rfl
      · split
        · rfl
        · rfl
  | node measure children ih =>
      rw [from?, Tree.from?, treesFrom_eq ih (Nat.zero_le start)]
      split
      · rfl
      · split
        · rfl
        · rfl

/-- The front of a tree is taken without a fault. -/
theorem takeTree_eq (tree : Tree α) (count : Nat) :
    takeTree geometry tree count = .ok (tree.take geometry count) := by
  rw [takeTree, before?_eq]
  rfl

theorem dropTree_eq (tree : Tree α) (start : Nat) :
    dropTree geometry tree start = .ok (tree.drop geometry start) := by
  rw [dropTree, from?_eq]
  rfl

/-- **Replacing a run of elements is safe** in any tree. -/
theorem replaceTree_eq (tree : Tree α) (start stop : Nat) (content : α) :
    replaceTree geometry tree start stop content =
      .ok (tree.replace geometry start stop content) := by
  rw [replaceTree, takeTree_eq, dropTree_eq, LawfulAccess.rechunk_eq]
  rfl

end Cuts
end Guarded
end GraphemeRope
