import GraphemeRope.Row

/-! # Laws of rows

Groups of a row are not empty, not too long, and make up the row. In a row of lengths every index
below the total lies in one of the slots, at an offset from where that slot starts. -/

namespace GraphemeRope

variable {β γ : Type}

/-- A row has a last entry unless it is empty. -/
theorem eq_nil_or_exists_last (row : List β) : row = [] ∨ ∃ front last, row = front ++ [last] := by
  rcases List.eq_nil_or_concat row with nothing | ⟨front, last, cut⟩
  · exact .inl nothing
  · rw [List.concat_eq_append] at cut
    exact .inr ⟨front, last, cut⟩

/-- Lengths that a width bounds add up to no more than so many widths. -/
theorem total_le_mul {lengths : List Nat} {width : Nat}
    (bounded : ∀ length ∈ lengths, length ≤ width) : total lengths ≤ lengths.length * width := by
  induction lengths with
  | nil => exact Nat.zero_le _
  | cons length rest ih =>
      rw [List.forall_mem_cons] at bounded
      rw [total, List.length_cons, Nat.succ_mul, Nat.add_comm]
      exact Nat.add_le_add (ih bounded.2) bounded.1

theorem le_total_of_mem {lengths : List Nat} {length : Nat} (member : length ∈ lengths) :
    length ≤ total lengths := by
  induction lengths with
  | nil => exact absurd member List.not_mem_nil
  | cons first rest ih =>
      unfold total
      rcases List.mem_cons.mp member with rfl | later
      · exact Nat.le_add_right _ _
      · exact Nat.le_trans (ih later) (Nat.le_add_left _ _)

theorem flatten_groups (size : Nat) (entries : List β) :
    (groups size entries).flatten = entries := by
  induction entries using groups.induct size with
  | case1 => simp only [groups, List.flatten_nil]
  | case2 entry rest ih =>
      rw [groups, List.flatten_cons, ih, List.cons_append, List.take_append_drop]

/-- No group is empty or greater than the size. -/
theorem length_of_mem_groups {size : Nat} (positive : 0 < size) {entries group : List β}
    (member : group ∈ groups size entries) : 0 < group.length ∧ group.length ≤ size := by
  induction entries using groups.induct size with
  | case1 => simp only [groups, List.not_mem_nil] at member
  | case2 entry rest ih =>
      rw [groups, List.mem_cons] at member
      rcases member with rfl | later
      · simp only [List.length_cons, List.length_take]
        omega
      · exact ih later

/-- A group is what remains of its row when something is left away before and after it. -/
theorem append_of_mem_groups {size : Nat} {entries group : List β}
    (member : group ∈ groups size entries) :
    ∃ front rear, entries = front ++ group ++ rear := by
  obtain ⟨before, after, cut⟩ := List.append_of_mem member
  refine ⟨before.flatten, after.flatten, ?_⟩
  rw [← flatten_groups size entries, cut, List.flatten_append, List.flatten_cons,
    List.append_assoc]

theorem mem_of_mem_groups {size : Nat} {entries group : List β}
    (member : group ∈ groups size entries) {entry : β} (inside : entry ∈ group) :
    entry ∈ entries := by
  rw [← flatten_groups size entries]
  exact List.mem_flatten.mpr ⟨group, member, inside⟩

@[simp]
theorem groups_nil (size : Nat) : groups size ([] : List β) = [] := by rw [groups]

theorem groups_eq_nil {size : Nat} {entries : List β} (nothing : groups size entries = []) :
    entries = [] := by
  rw [← flatten_groups size entries, nothing, List.flatten_nil]

/-- A row that is one group is that group. -/
theorem groups_eq_singleton {size : Nat} {entries group : List β}
    (single : groups size entries = [group]) : entries = group := by
  rw [← flatten_groups size entries, single, List.flatten_singleton]

theorem max_one_pos (size : Nat) : 0 < max size 1 :=
  Nat.lt_of_lt_of_le Nat.zero_lt_one (Nat.le_max_right size 1)

theorem groups_max_one (size : Nat) (row : List β) : groups (max size 1) row = groups size row := by
  rcases Nat.eq_zero_or_pos size with rfl | positive
  · induction row using groups.induct 0 with
    | case1 => rw [groups_nil, groups_nil]
    | case2 entry rest ih =>
        rw [groups, groups]
        exact congrArg ((entry :: rest.take 0) :: ·) ih
  · rw [Nat.max_eq_left positive]

/-- A row that begins with a group of full size. -/
theorem groups_append {size : Nat} {front : List β} (filled : front ≠ [])
    (full : front.length = size) (rear : List β) :
    groups size (front ++ rear) = front :: groups size rear := by
  obtain ⟨entry, front, rfl⟩ := List.exists_cons_of_ne_nil filled
  have width : size - 1 = front.length := by rw [← full, List.length_cons, Nat.add_sub_cancel]
  rw [List.cons_append, groups, width, List.take_left, List.drop_left]

/-- A row that is no longer than a group is one. -/
theorem groups_of_length_le {size : Nat} {row : List β} (filled : row ≠ [])
    (short : row.length ≤ size) : groups size row = [row] := by
  obtain ⟨entry, row, rfl⟩ := List.exists_cons_of_ne_nil filled
  have width : row.length ≤ size - 1 := Nat.le_sub_one_of_lt short
  rw [groups, List.take_of_length_le width, List.drop_eq_nil_of_le width, groups_nil]

/-- A row with one entry more than a group has is that group and the entry left over. -/
theorem exists_groups_of_length_eq_succ {size : Nat} (positive : 0 < size) {row : List β}
    (long : row.length = size + 1) :
    ∃ front last, groups size row = [front, [last]] ∧ front.length = size ∧
      front.head? = row.head? := by
  rcases eq_nil_or_exists_last row with rfl | ⟨front, last, rfl⟩
  · cases long
  · rw [List.length_append, List.length_singleton, Nat.add_right_cancel_iff] at long
    obtain ⟨first, rest, rfl⟩ := List.exists_cons_of_length_pos (long ▸ positive)
    refine ⟨first :: rest, last, ?_, long, rfl⟩
    rw [groups_append (List.cons_ne_nil _ _) long,
      groups_of_length_le (List.cons_ne_nil _ _) positive]

/-- All groups of a row but the last are of full size. -/
theorem length_of_mem_dropLast_groups {size : Nat} (positive : 0 < size) (entries : List β) :
    ∀ group ∈ (groups size entries).dropLast, group.length = size := by
  induction entries using groups.induct size with
  | case1 =>
      rw [groups_nil]
      exact List.forall_mem_nil _
  | case2 entry rest ih =>
      rw [groups]
      cases later : groups size (rest.drop (size - 1)) with
      | nil => exact List.forall_mem_nil _
      | cons next more =>
          have remains : rest.drop (size - 1) ≠ [] := by
            intro nothing
            rw [nothing, groups_nil] at later
            cases later
          have longer := List.length_pos_iff.mpr remains
          rw [List.length_drop] at longer
          rw [later] at ih
          rw [List.dropLast_cons_cons, List.forall_mem_cons]
          refine ⟨?_, ih⟩
          rw [List.length_cons, List.length_take]
          omega

/-- Groups of full size stay as they are when the row goes on after them. -/
theorem groups_flatten_append {size : Nat} (positive : 0 < size) {blocks : List (List β)}
    (full : ∀ block ∈ blocks, block.length = size) (rear : List β) :
    groups size (blocks.flatten ++ rear) = blocks ++ groups size rear := by
  induction blocks with
  | nil => rfl
  | cons block blocks ih =>
      rw [List.forall_mem_cons] at full
      have filled : block ≠ [] := List.length_pos_iff.mp (full.1 ▸ positive)
      rw [List.flatten_cons, List.append_assoc, groups_append filled full.1, ih full.2,
        List.cons_append]

/-- A row that is not empty has a last group, before which all groups are of full size. -/
theorem exists_last_group {size : Nat} (positive : 0 < size) {entries : List β}
    (filled : entries ≠ []) :
    ∃ blocks last, groups size entries = blocks ++ [last] ∧ entries = blocks.flatten ++ last ∧
      last ≠ [] ∧ ∀ block ∈ blocks, block.length = size := by
  rcases eq_nil_or_exists_last (groups size entries) with nothing | ⟨blocks, last, cut⟩
  · exact absurd (groups_eq_nil nothing) filled
  · have full := length_of_mem_dropLast_groups positive entries
    have inside : last ∈ groups size entries := cut ▸ List.mem_concat_self
    have joined := flatten_groups size entries
    rw [cut, List.dropLast_concat] at full
    rw [cut, List.flatten_append, List.flatten_singleton] at joined
    exact ⟨blocks, last, cut, joined.symm,
      List.length_pos_iff.mp (length_of_mem_groups positive inside).1, full⟩

/-- After groups of full size, the last group has what is left over, and is full if nothing is. -/
theorem length_last_group {size : Nat} {blocks : List (List β)} {last : List β}
    (full : ∀ block ∈ blocks, block.length = size) (filled : last ≠ [])
    (short : last.length ≤ size) :
    last.length = ((blocks.flatten ++ last).length - 1) % size + 1 := by
  have positive := List.length_pos_iff.mpr filled
  induction blocks with
  | nil =>
      rw [List.flatten_nil, List.nil_append, Nat.mod_eq_of_lt (by omega)]
      omega
  | cons block blocks ih =>
      rw [List.forall_mem_cons] at full
      have longer : ((block :: blocks).flatten ++ last).length - 1 =
          size + ((blocks.flatten ++ last).length - 1) := by
        rw [List.flatten_cons, List.append_assoc, List.length_append, full.1]
        rw [List.length_append]
        omega
      rw [longer, Nat.add_mod_left]
      exact ih full.2

/-- There are as many groups as it takes to hold all entries. -/
theorem length_groups {size : Nat} (positive : 0 < size) (entries : List β) :
    (groups size entries).length = (entries.length + size - 1) / size := by
  induction entries using groups.induct size with
  | case1 =>
      have short : size - 1 < size := Nat.sub_one_lt_of_lt positive
      rw [groups_nil, List.length_nil, List.length_nil, Nat.zero_add, Nat.div_eq_of_lt short]
  | case2 entry rest ih =>
      rw [groups, List.length_cons, ih, List.length_drop, List.length_cons, Nat.add_right_comm,
        Nat.add_sub_cancel, Nat.add_div_right _ positive]
      rcases Nat.lt_or_ge rest.length (size - 1) with single | several
      · have few : rest.length - (size - 1) + size - 1 < size := by omega
        rw [Nat.div_eq_of_lt few, Nat.div_eq_of_lt (Nat.lt_of_lt_of_le single (Nat.sub_le _ _))]
      · have left : rest.length - (size - 1) + size - 1 = rest.length := by omega
        rw [left]

/-- A row of no more entries than fit in so many groups has no more groups. -/
theorem length_groups_le_of_le_mul {size count : Nat} {entries : List β}
    (fits : entries.length ≤ count * size) : (groups size entries).length ≤ count := by
  rcases Nat.eq_zero_or_pos size with rfl | positive
  · have nothing : entries = [] := List.eq_nil_of_length_eq_zero (Nat.le_zero.mp fits)
    rw [nothing, groups_nil]
    exact Nat.zero_le _
  · rw [length_groups positive, ← Nat.lt_succ_iff, Nat.div_lt_iff_lt_mul positive, Nat.succ_mul]
    omega

/-- A row is cut where its groups were joined, if all but the last are of full size. -/
theorem groups_flatten {size : Nat} (positive : 0 < size) {blocks : List (List β)}
    (full : ∀ block ∈ blocks.dropLast, block.length = size)
    (proper : ∀ block ∈ blocks, 0 < block.length ∧ block.length ≤ size) :
    groups size blocks.flatten = blocks := by
  rcases eq_nil_or_exists_last blocks with rfl | ⟨front, last, rfl⟩
  · exact groups_nil size
  · obtain ⟨filled, short⟩ := proper last List.mem_concat_self
    rw [List.dropLast_concat] at full
    rw [List.flatten_append, List.flatten_singleton, groups_flatten_append positive full,
      groups_of_length_le (List.length_pos_iff.mp filled) short]

theorem total_map_eq_mul {size : β → Nat} {width : Nat} {row : List β}
    (same : ∀ entry ∈ row, size entry = width) :
    total (row.map size) = row.length * width := by
  induction row with
  | nil => exact (Nat.zero_mul width).symm
  | cons entry rest ih =>
      rw [List.forall_mem_cons] at same
      rw [List.map_cons, total, ih same.2, same.1, List.length_cons, Nat.succ_mul, Nat.add_comm]

/-- All entries of a packed row but the last are full, and the last one fits. -/
theorem packed_iff {full fitting : β → Bool} (row : List β) :
    packed full fitting row = true ↔
      (∀ entry ∈ row.dropLast, full entry = true) ∧
        ∀ entry ∈ row.getLast?, fitting entry = true := by
  induction row with
  | nil => simp only [packed, List.dropLast_nil, List.not_mem_nil, false_imp_iff, implies_true,
      List.getLast?_nil, Option.not_mem_none, and_self]
  | cons entry row ih =>
      cases row with
      | nil =>
          simp only [packed, List.dropLast_singleton, List.not_mem_nil, false_imp_iff,
            implies_true, List.getLast?_singleton, Option.mem_some_iff, forall_eq', true_and]
      | cons next row =>
          rw [packed, Bool.and_eq_true, ih, List.dropLast_cons_cons, List.forall_mem_cons,
            List.getLast?_cons_cons, and_assoc]

/-- If a full entry fits, all entries of a packed row do. -/
theorem forall_of_packed {full fitting : β → Bool}
    (weaker : ∀ entry, full entry = true → fitting entry = true) {row : List β}
    (dense : packed full fitting row = true) : ∀ entry ∈ row, fitting entry = true := by
  obtain ⟨fullFront, fittingLast⟩ := (packed_iff row).mp dense
  intro entry member
  have filled := List.ne_nil_of_mem member
  rw [← List.dropLast_concat_getLast filled] at member
  rcases List.mem_append.mp member with early | final
  · exact weaker entry (fullFront entry early)
  · rw [List.mem_singleton] at final
    rw [final]
    exact fittingLast _ (List.getLast?_eq_some_getLast filled)

/-- In a row of blocks that all but the last have one width, the quotient of an index by the width
selects the block, and the remainder the entry. -/
theorem getElem?_flatten_of_width {width : Nat} (positive : 0 < width) {blocks : List (List β)}
    (full : ∀ block ∈ blocks.dropLast, block.length = width)
    (fitting : ∀ block ∈ blocks, block.length ≤ width) (index : Nat) :
    blocks.flatten[index]? = (blocks[index / width]?).bind (·[index % width]?) := by
  induction blocks generalizing index with
  | nil => rfl
  | cons block rest ih =>
      rw [List.flatten_cons]
      rcases Nat.lt_or_ge index width with small | large
      · rw [Nat.div_eq_of_lt small, Nat.mod_eq_of_lt small, List.getElem?_cons_zero,
          Option.bind_some]
        cases rest with
        | nil => simp only [List.flatten_nil, List.append_nil]
        | cons next rest =>
            simp only [List.dropLast_cons_cons, List.forall_mem_cons] at full
            rw [List.getElem?_append_left (by omega)]
      · have quotient : index / width = (index - width) / width + 1 := by
          rw [Nat.div_eq_sub_div positive large]
        have remainder : index % width = (index - width) % width := Nat.mod_eq_sub_mod large
        rw [List.forall_mem_cons] at fitting
        rw [List.getElem?_append_right (Nat.le_trans fitting.1 large), quotient, remainder,
          List.getElem?_cons_succ]
        cases rest with
        | nil => rfl
        | cons next rest =>
            simp only [List.dropLast_cons_cons, List.forall_mem_cons] at full
            rw [full.1]
            exact ih full.2 fitting.2 _

/-- A row is cut before and after one of its entries. -/
theorem exists_append_of_getElem? {row : List β} {slot : Nat} {entry : β}
    (present : row[slot]? = some entry) :
    ∃ front rear, row = front ++ entry :: rear ∧ front.length = slot := by
  obtain ⟨inside, rfl⟩ := List.getElem?_eq_some_iff.mp present
  refine ⟨row.take slot, row.drop (slot + 1), ?_, List.length_take_of_le (Nat.le_of_lt inside)⟩
  rw [← List.drop_eq_getElem_cons, List.take_append_drop]

/-- A row is cut at two places. -/
theorem append_between {start stop : Nat} (ordered : start ≤ stop) (row : List β) :
    row.take start ++ ((row.take stop).drop start ++ row.drop stop) = row := by
  have early : row.take start = (row.take stop).take start := by
    rw [List.take_take, Nat.min_eq_left ordered]
  rw [early, ← List.append_assoc, List.take_append_drop, List.take_append_drop]

section Positions

variable {lengths : List Nat} {slot length : Nat}

theorem total_append (front rear : List Nat) :
    total (front ++ rear) = total front + total rear := by
  induction front with
  | nil => exact (Nat.zero_add _).symm
  | cons length front ih => rw [List.cons_append, total, ih, total, Nat.add_assoc]

/-- The number of elements before a slot of a row. -/
def startOf (lengths : List Nat) (slot : Nat) : Nat := total (lengths.take slot)

theorem startOf_zero (lengths : List Nat) : startOf lengths 0 = 0 := rfl

theorem startOf_cons (first : Nat) (rest : List Nat) (slot : Nat) :
    startOf (first :: rest) (slot + 1) = first + startOf rest slot := rfl

/-- A slot starts where the one before it ends. -/
theorem startOf_succ (owner : lengths[slot]? = some length) :
    startOf lengths (slot + 1) = startOf lengths slot + length := by
  rw [startOf, List.take_add_one, owner, total_append]
  rfl

/-- The start of a later slot, counted from that of an earlier one. -/
theorem startOf_add (lengths : List Nat) (slot count : Nat) :
    startOf lengths (slot + count) = startOf lengths slot + startOf (lengths.drop slot) count := by
  rw [startOf, List.take_add, total_append]
  rfl

/-- What is before a slot and what is from it on make up the whole. -/
theorem startOf_add_total_drop (lengths : List Nat) (slot : Nat) :
    startOf lengths slot + total (lengths.drop slot) = total lengths := by
  rw [startOf, ← total_append, List.take_append_drop]

theorem startOf_le_total (lengths : List Nat) (slot : Nat) : startOf lengths slot ≤ total lengths :=
  Nat.le_of_add_right_le (Nat.le_of_eq (startOf_add_total_drop lengths slot))

/-- A slot ends no later than its row. -/
theorem startOf_add_le_total (owner : lengths[slot]? = some length) :
    startOf lengths slot + length ≤ total lengths := by
  rw [← startOf_succ owner]
  exact startOf_le_total lengths _

/-- Every index of a row lies in a slot. -/
theorem exists_slot {index : Nat} (inside : index < total lengths) :
    ∃ slot length offset, lengths[slot]? = some length ∧ offset < length ∧
      index = startOf lengths slot + offset := by
  induction lengths generalizing index with
  | nil => exact absurd inside (Nat.not_lt_zero index)
  | cons first rest ih =>
      rw [total] at inside
      by_cases here : index < first
      · exact ⟨0, first, index, rfl, here, (Nat.zero_add _).symm⟩
      · have shorter : index - first < total rest := by omega
        obtain ⟨slot, length, offset, owner, within, place⟩ := ih shorter
        refine ⟨slot + 1, length, offset, owner, within, ?_⟩
        rw [startOf, List.take_succ_cons, total, Nat.add_assoc, ← startOf, ← place]
        omega

/-- The entry at an offset of a block of a row of blocks. -/
theorem getElem?_flatten_of_owner {blocks : List (List β)} {slot : Nat} {block : List β}
    (owner : blocks[slot]? = some block) {offset : Nat} (within : offset < block.length) :
    blocks.flatten[startOf (blocks.map List.length) slot + offset]? = block[offset]? := by
  induction blocks generalizing slot with
  | nil => rw [List.getElem?_nil] at owner; cases owner
  | cons first rest ih =>
      rw [List.flatten_cons]
      cases slot with
      | zero =>
          cases owner
          rw [startOf_zero, Nat.zero_add, List.getElem?_append_left within]
      | succ slot =>
          rw [List.map_cons, startOf_cons, Nat.add_assoc,
            List.getElem?_append_right (Nat.le_add_right _ _), Nat.add_sub_cancel_left]
          exact ih owner

/-- Whoever walks along a row to a slot and does something there does it to the entry of the slot.
-/
theorem walk_eq (walk : List β → Nat → γ) (there : β → γ)
    (here : ∀ entry rest, walk (entry :: rest) 0 = there entry)
    (onward : ∀ entry rest slot, walk (entry :: rest) (slot + 1) = walk rest slot)
    {row : List β} {slot : Nat} {entry : β} (owner : row[slot]? = some entry) :
    walk row slot = there entry := by
  induction row generalizing slot with
  | nil => rw [List.getElem?_nil] at owner; cases owner
  | cons first rest ih =>
      cases slot with
      | zero =>
          cases owner
          exact here _ _
      | succ slot =>
          rw [onward]
          exact ih owner

/-- Whoever searches a row for the slot that an index lies in, and takes the length of each slot off
that is passed, finds the slot and is left with the offset in it. -/
theorem search_eq (measure : β → Nat) (search : Nat → List β → Nat → γ) (there : Nat → β → Nat → γ)
    (step : ∀ start entry rest index, search start (entry :: rest) index =
      if index < measure entry then there start entry index
      else search (start + 1) rest (index - measure entry))
    (start : Nat) {row : List β} {slot : Nat} {entry : β} (owner : row[slot]? = some entry)
    {offset : Nat} (within : offset < measure entry) :
    search start row (startOf (row.map measure) slot + offset) =
      there (start + slot) entry offset := by
  induction row generalizing start slot with
  | nil => rw [List.getElem?_nil] at owner; cases owner
  | cons first rest ih =>
      cases slot with
      | zero =>
          cases owner
          rw [startOf_zero, Nat.zero_add, step, if_pos within, Nat.add_zero]
      | succ slot =>
          rw [List.map_cons, startOf_cons, step, if_neg (by omega), Nat.add_assoc,
            Nat.add_sub_cancel_left, ih (start + 1) owner, Nat.add_assoc, Nat.add_comm 1 slot]

/-- A slot of a row that has a length has an entry of that length. -/
theorem exists_owner {row : List β} {measure : β → Nat} {slot length : Nat}
    (owner : (row.map measure)[slot]? = some length) :
    ∃ entry, row[slot]? = some entry ∧ measure entry = length := by
  rw [List.getElem?_map] at owner
  exact Option.map_eq_some_iff.mp owner

end Positions

end GraphemeRope
