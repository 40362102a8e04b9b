import GraphemeRope.Chunk.Unit
import GraphemeRope.Cursor.Basic
import GraphemeRope.Proofs.Cursor.Place
import Mathlib.Logic.Function.Iterate

/-! # Moving cursors

A cursor that is moved is in every part the cursor that is located at its new position, and a move
that is refused leaves it as it was (`GraphemeRope.Cursor.run_stepForward_locate` and
`GraphemeRope.Cursor.run_stepBackward_locate`). So it does not matter by which moves a position was
reached (`GraphemeRope.Cursor.moves_canonical`). -/

namespace GraphemeRope

/-- The elements of a forest in order. -/
def forestElements {α ε : Type} [Chunk α ε] (forest : List (Tree α)) : List ε :=
  forest.flatMap Tree.elements

namespace Cursor

variable {α ε : Type} [Chunk α ε] {forest : List (Tree α)} {position : Nat}

section Runs

variable {root : Nat} {place : Place α}

omit [Chunk α ε] in
theorem get_bind {β : Type} (next : Cursor α → Move α β) (cursor : Cursor α) :
    (get >>= next) cursor = next cursor cursor := rfl

omit [Chunk α ε] in
theorem set_bind {β : Type} (left : Cursor α) (next : PUnit → Move α β) (cursor : Cursor α) :
    ((set left : Move α PUnit) >>= next) cursor = next ⟨⟩ left := rfl

omit [Chunk α ε] in
/-- A move goes on with what it finds. -/
theorem found_bind {β γ : Type} {result : Except Fault β} {value : β} (ok : result = .ok value)
    (next : β → Move α γ) (cursor : Cursor α) :
    (found result >>= next) cursor = next value cursor := by
  rw [ok]
  rfl

/-- Puts the cursor at the place beside a place, or does what is to be done beyond the root. -/
def standBeside (direction : Direction) (root : Nat) (place : Place α) (beyond : Move α Unit) :
    Move α Unit := do
  standOr root beyond (← found (place.beside direction))

/-- A forward move counts one element more and goes to the place beside. -/
theorem run_stepForward (forest : List (Tree α)) (root position : Nat) (place : Place α) :
    stepForward.run (atPlace forest root position place) =
      (standBeside .forward root place enterNextRoot).run
        (atPlace forest root (position + 1) place) := by
  unfold stepForward standBeside Place.beside Direction.beside?
  by_cases stays : place.offset + 1 < Chunk.length place.chunk
  · simp only [atPlace, EStateM.run, get_bind, set_bind, stays, if_true]
    rfl
  · simp only [atPlace, EStateM.run, get_bind, set_bind, stays, if_false]

/-- A backward move counts one element less and goes to the place beside. -/
theorem run_stepBackward (forest : List (Tree α)) (root position : Nat) (place : Place α) :
    stepBackward.run (atPlace forest root (position + 1) place) =
      (standBeside .backward root place enterPreviousRoot).run
        (atPlace forest root position place) := by
  unfold stepBackward standBeside Place.beside Direction.beside?
  by_cases stays : 0 < place.offset
  · have counted : Guarded.sub (position + 1) 1 = .ok position :=
      Guarded.sub_of_le (Nat.le_add_left 1 position)
    simp only [atPlace, EStateM.run, get_bind, stays, Option.isSome_some, decide_true,
      Bool.and_self, if_true, found_bind counted]
    rfl
  · simp only [atPlace, EStateM.run, get_bind, set_bind, stays, decide_false, Bool.and_false,
      Bool.false_eq_true, if_false, Nat.succ_ne_zero, Nat.add_sub_cancel]

/-- Before the first element nothing is changed. -/
theorem run_stepBackward_zero (beside : place.beside .backward = .ok none) :
    stepBackward.run (atPlace forest root 0 place) =
      .error .beforeStart (atPlace forest root 0 place) := by
  unfold stepBackward
  by_cases stays : 0 < place.offset
  · rw [Place.beside, Direction.beside?, if_pos stays] at beside
    cases beside
  · simp only [atPlace, EStateM.run, get_bind, stays, decide_false, Bool.and_false,
      Bool.false_eq_true, if_false, if_true]
    rfl

/-- Past the last element nothing is changed. -/
theorem run_stepForward_atEnd (forest : List (Tree α)) :
    stepForward.run (atEnd forest) = .error .pastEnd (atEnd forest) := rfl

/-- The cursor comes to stand at the place beside, if the root has one. -/
theorem run_standBeside_within {direction : Direction} {next : Place α} {beyond : Move α Unit}
    (beside : place.beside direction = .ok (some next)) (position : Nat) :
    (standBeside direction root place beyond).run (atPlace forest root position place) =
      .ok () (atPlace forest root position next) := by
  simp only [standBeside, EStateM.run, found_bind beside]
  rfl

/-- Beyond the root the cursor does what it was told to do there. -/
theorem run_standBeside_beyond {direction : Direction} {beyond : Move α Unit}
    (beside : place.beside direction = .ok none) (position : Nat) :
    (standBeside direction root place beyond).run (atPlace forest root position place) =
      beyond.run (atPlace forest root position place) := by
  simp only [standBeside, EStateM.run, found_bind beside, standOr]

end Runs

/-- The search from a root on finds the place in the tree that owns the position. -/
theorem locateFrom_eq (forest : List (Tree α)) (root before : Nat) {row : List (Tree α)}
    {slot : Nat} {tree : Tree α} (owner : row[slot]? = some tree) {index : Nat}
    (within : index < tree.length) {place : Place α}
    (below : Place.descend [] tree index = .ok place)
    (reached : position = before + (startOf (row.map Tree.length) slot + index)) :
    locateFrom forest position root before row =
      .ok (atPlace forest (root + slot) position place) := by
  induction row generalizing root before slot with
  | nil => rw [List.getElem?_nil] at owner; cases owner
  | cons first rest ih =>
      cases slot with
      | zero =>
          cases owner
          rw [startOf_zero, Nat.zero_add] at reached
          have guarded : Guarded.sub position before = .ok index := by
            rw [Guarded.sub_of_le (by omega), reached, Nat.add_sub_cancel_left]
          rw [locateFrom, if_pos (by omega), guarded]
          show (do return atPlace forest root position (← Place.descend [] tree index)) = _
          rw [below]
          rfl
      | succ slot =>
          rw [List.map_cons, startOf_cons] at reached
          rw [locateFrom, if_neg (by omega), ih (root + 1) _ owner (by omega), Nat.add_assoc,
            Nat.add_comm 1 slot]

omit [Chunk α ε] in
/-- The search from a root on comes to the end of the forest if its trees do not reach the
position. -/
theorem locateFrom_past [Chunk α ε] (forest : List (Tree α)) (root before : Nat)
    {row : List (Tree α)} (past : before + forestLength row ≤ position) :
    locateFrom forest position root before row = .ok (atEnd forest) := by
  induction row generalizing root before with
  | nil => rfl
  | cons first rest ih =>
      have step : forestLength (first :: rest) = first.length + forestLength rest := rfl
      rw [step] at past
      rw [locateFrom, if_neg (by omega)]
      exact ih _ _ (by omega)

section Locate

variable (counted : ∀ tree ∈ forest, Tree.Counted tree)
include counted

/-- A position inside a forest lies in one of its roots. -/
theorem exists_root (inside : position < forestLength forest) :
    ∃ root tree index, forest[root]? = some tree ∧ Tree.Counted tree ∧ index < tree.length ∧
      position = startOf (forest.map Tree.length) root + index := by
  obtain ⟨root, length, index, owner, within, reached⟩ := exists_slot inside
  obtain ⟨tree, present, rfl⟩ := exists_owner owner
  exact ⟨root, tree, index, present, counted tree (List.mem_of_getElem? present), within, reached⟩

omit counted in
/-- The cursor at a position is at the place of the tree that owns it. -/
theorem locate_eq {root : Nat} {tree : Tree α} (owner : forest[root]? = some tree) {index : Nat}
    (within : index < tree.length) {place : Place α}
    (below : Place.descend [] tree index = .ok place)
    (reached : position = startOf (forest.map Tree.length) root + index) :
    locate forest position = atPlace forest root position place := by
  rw [locate, locateFrom_eq forest 0 0 owner within below (by rw [Nat.zero_add]; exact reached),
    Nat.zero_add]

omit counted in
/-- The cursor at a position past the last element is the end. -/
theorem locate_past (past : forestLength forest ≤ position) :
    locate forest position = atEnd forest := by
  rw [locate, locateFrom_past forest 0 0 (by rw [Nat.zero_add]; exact past)]

/-- The length of a forest is the number of its elements. -/
theorem length_forestElements : forestLength forest = (forestElements forest).length := by
  rw [forestElements, ← Tree.elementsOf_chunksOfAll]
  exact Tree.total_lengths fun tree member => (counted tree member).length_eq_elements

/-- **The element at a position.** A position inside a forest is located at its element. -/
theorem value?_locate (inside : position < forestLength forest) :
    locateFrom forest position 0 0 forest = .ok (locate forest position) ∧
      (locate forest position).value? = (forestElements forest)[position]? := by
  obtain ⟨root, tree, index, present, below, within, reached⟩ := exists_root counted inside
  obtain ⟨place, found, _⟩ := Place.beside_eq .forward [] below within
  have located := locate_eq present within found reached
  have block : (forest.map Tree.elements)[root]? = some tree.elements := by
    rw [List.getElem?_map, present, Option.map_some]
  constructor
  · rw [located, locateFrom_eq forest 0 0 present within found
      (by rw [Nat.zero_add]; exact reached), Nat.zero_add]
  · rw [located, reached, forestElements, List.flatMap_def, Tree.Counted.map_length counted,
      getElem?_flatten_of_owner block (below.length_eq_elements ▸ within)]
    exact Place.element?_of_descend below within found

/-- The cursor at a position has the element there, or none past the last one. -/
theorem value?_eq_getElem? (position : Nat) :
    (locate forest position).value? = (forestElements forest)[position]? := by
  rcases Nat.lt_or_ge position (forestLength forest) with inside | past
  · exact (value?_locate counted inside).2
  · rw [locate_past past, List.getElem?_eq_none (length_forestElements counted ▸ past)]
    rfl

/-- A located cursor counts the elements before it. -/
theorem position_locate (inside : position ≤ forestLength forest) :
    (locate forest position).position = position := by
  rcases Nat.eq_or_lt_of_le inside with last | before
  · rw [locate_past (Nat.le_of_eq last.symm), last]
    rfl
  · obtain ⟨root, tree, index, present, below, within, reached⟩ := exists_root counted before
    obtain ⟨place, found, _⟩ := Place.beside_eq .forward [] below within
    rw [locate_eq present within found reached]
    rfl

omit counted in
/-- Whether the walk from a root in a direction leads into another root, to the element at a
position. -/
def LeadsTo (direction : Direction) (forest : List (Tree α)) (root position : Nat) : Prop :=
  ∃ next tree place, direction.beyond (forest.map Tree.length) root = .ok (some next) ∧
    forest[next]? = some tree ∧ Place.edge direction tree = .ok (some place) ∧
    locate forest position = atPlace forest next position place

/-- The next filled root leads to the element at its near edge. -/
theorem leadsTo_of_beyond {direction : Direction} {root next filled : Nat}
    (beyond : direction.beyond (forest.map Tree.length) root = .ok (some next))
    (owner : (forest.map Tree.length)[next]? = some filled) (positive : 0 < filled)
    (reached : position = startOf (forest.map Tree.length) next + direction.edgeOf filled) :
    LeadsTo direction forest root position := by
  obtain ⟨tree, present, rfl⟩ := exists_owner owner
  have below := counted tree (List.mem_of_getElem? present)
  have within := direction.edgeOf_lt positive
  obtain ⟨place, found, _⟩ := Place.beside_eq direction [] below within
  have edge := Place.edge_eq direction below positive
  rw [found] at edge
  exact ⟨next, tree, place, beyond, present, edge, locate_eq present within found reached⟩

/-- **One step of a walk.** Of the element beside a located one, either the way is found in the same
root, or the walk leads on from that root. There is no element beside only if no root is left. -/
theorem beside_locate (direction : Direction) (inside : position < forestLength forest) :
    ∃ root place, locate forest position = atPlace forest root position place ∧
      ((∃ beside next, direction.beside? (forestLength forest) position = some beside ∧
          place.beside direction = .ok (some next) ∧
          locate forest beside = atPlace forest root beside next) ∨
        place.beside direction = .ok none ∧
          ((∃ beside, direction.beside? (forestLength forest) position = some beside ∧
              LeadsTo direction forest root beside) ∨
            direction.beside? (forestLength forest) position = none ∧
              direction.beyond (forest.map Tree.length) root = .ok none)) := by
  obtain ⟨root, tree, index, present, below, within, rfl⟩ := exists_root counted inside
  obtain ⟨place, found, step⟩ := Place.beside_eq direction [] below within
  have owner : (forest.map Tree.length)[root]? = some tree.length := by
    rw [List.getElem?_map, present, Option.map_some]
  refine ⟨root, place, locate_eq present within found rfl, ?_⟩
  cases stay : direction.beside? tree.length index with
  | some next =>
      obtain ⟨fits, after⟩ := Direction.beside?_of_inside owner within stay
      obtain ⟨other, there, _⟩ := Place.beside_eq direction [] below fits
      rw [stay] at step
      simp only [there] at step
      exact .inl ⟨_, other, after, step, locate_eq present fits there rfl⟩
  | none =>
      rw [stay] at step
      refine .inr ⟨step, ?_⟩
      rcases Direction.beyond_spec owner within stay with
        ⟨alone, last⟩ | ⟨next, filled, beyond, other, positive, after⟩
      · exact .inr ⟨last, alone⟩
      · exact .inl ⟨_, after, leadsTo_of_beyond counted beyond other positive rfl⟩

/-- From behind the last root the walk back leads to the last element. -/
theorem leadsTo_last {last : Nat} (filled : forestLength forest = last + 1) :
    LeadsTo .backward forest forest.length last := by
  have positive : 0 < total (forest.map Tree.length) := by
    rw [show total (forest.map Tree.length) = last + 1 from filled]
    exact Nat.succ_pos last
  obtain ⟨next, length, nearest, owner, inner, edge⟩ := Direction.backward.nearest_spec positive
  rw [Direction.nearest, List.length_map] at nearest
  refine leadsTo_of_beyond counted nearest owner inner ?_
  rw [edge, show total (forest.map Tree.length) = last + 1 from filled]
  rfl

omit counted in
/-- A move goes on at the near edge of the root that it enters. -/
theorem edgeOfRoot_bind {direction : Direction} {next : Nat} {tree : Tree α} {place : Place α}
    (owner : forest[next]? = some tree) (edge : Place.edge direction tree = .ok (some place))
    (rest : Option (Place α) → Move α Unit) (cursor : Cursor α) :
    (edgeOfRoot direction forest next >>= rest) cursor = rest (some place) cursor := by
  rw [edgeOfRoot, Guarded.get, owner]
  show (found (Place.edge direction tree) >>= rest) cursor = _
  rw [found_bind edge]

omit counted in
/-- Entering the next root comes to the element at the new position. -/
theorem run_enterNextRoot {cursor : Cursor α}
    (leads : LeadsTo .forward cursor.forest cursor.root cursor.position) :
    enterNextRoot.run cursor = .ok () (locate cursor.forest cursor.position) := by
  obtain ⟨next, tree, place, beyond, owner, edge, located⟩ := leads
  simp only [enterNextRoot, EStateM.run, get_bind, set_bind, found_bind beyond,
    edgeOfRoot_bind owner edge, located]
  rfl

omit counted in
/-- Entering the next root comes to the end if no filled one is left. -/
theorem run_enterNextRoot_last {cursor : Cursor α}
    (last : Direction.forward.beyond (cursor.forest.map Tree.length) cursor.root = .ok none)
    (atEnd_eq : cursor.position = forestLength cursor.forest) :
    enterNextRoot.run cursor = .ok () (atEnd cursor.forest) := by
  simp only [enterNextRoot, EStateM.run, get_bind, set_bind, found_bind last, atEnd, ← atEnd_eq]
  rfl

omit counted in
/-- Entering the previous root comes to the element at the new position. -/
theorem run_enterPreviousRoot {cursor : Cursor α}
    (leads : LeadsTo .backward cursor.forest cursor.root cursor.position) :
    enterPreviousRoot.run cursor = .ok () (locate cursor.forest cursor.position) := by
  obtain ⟨next, tree, place, beyond, owner, edge, located⟩ := leads
  simp only [enterPreviousRoot, EStateM.run, get_bind, set_bind, found_bind beyond,
    edgeOfRoot_bind owner edge, located]
  rfl

/-- **Moving forward.** The cursor after a located one is the one located at the next position. -/
theorem run_stepForward_locate (inside : position < forestLength forest) :
    stepForward.run (locate forest position) = .ok () (locate forest (position + 1)) := by
  obtain ⟨root, place, located, cases⟩ := beside_locate counted .forward inside
  rw [located, run_stepForward]
  rcases cases with ⟨beside, next, index_eq, step, there⟩ |
    ⟨step, ⟨beside, index_eq, leads⟩ | ⟨alone, last⟩⟩
  · simp only [Direction.beside?, Option.ite_none_right_eq_some, Option.some.injEq] at index_eq
    rw [run_standBeside_within step, index_eq.2, there]
  · simp only [Direction.beside?, Option.ite_none_right_eq_some, Option.some.injEq] at index_eq
    rw [run_standBeside_beyond step, index_eq.2]
    exact run_enterNextRoot leads
  · simp only [Direction.beside?, ite_eq_right_iff, reduceCtorEq, imp_false] at alone
    have final : position + 1 = forestLength forest := by omega
    rw [run_standBeside_beyond step, locate_past (Nat.le_of_eq final.symm)]
    exact run_enterNextRoot_last last final

/-- **Moving backward.** The cursor before a located one is the one located at the previous
position, also if the former is at the end. -/
theorem run_stepBackward_locate (inside : position < forestLength forest) :
    stepBackward.run (locate forest (position + 1)) = .ok () (locate forest position) := by
  -- The end has no way down to climb; from there the walk starts behind the last root.
  by_cases last : position + 1 = forestLength forest
  · have leads := leadsTo_last counted last.symm
    rw [locate_past (Nat.le_of_eq last.symm)]
    have run : stepBackward.run (atEnd forest) =
        enterPreviousRoot.run { atEnd forest with position } := by
      unfold stepBackward
      simp only [atEnd, ← last, EStateM.run, get_bind, set_bind, Option.isSome_none,
        Bool.false_and, Bool.false_eq_true, if_false, Nat.succ_ne_zero, Nat.add_sub_cancel]
      rfl
    rw [run]
    exact run_enterPreviousRoot leads
  · have before : position + 1 < forestLength forest := by omega
    obtain ⟨root, place, located, cases⟩ := beside_locate counted .backward before
    rw [located, run_stepBackward]
    rcases cases with ⟨beside, previous, index_eq, step, there⟩ |
      ⟨step, ⟨beside, index_eq, leads⟩ | ⟨alone, _⟩⟩
    · simp only [Direction.beside?, Nat.succ_pos, if_true, Nat.add_sub_cancel,
        Option.some.injEq] at index_eq
      rw [run_standBeside_within step, index_eq, there]
    · simp only [Direction.beside?, Nat.succ_pos, if_true, Nat.add_sub_cancel,
        Option.some.injEq] at index_eq
      rw [run_standBeside_beyond step, index_eq]
      exact run_enterPreviousRoot leads
    · simp only [Direction.beside?, Nat.succ_pos, if_true, reduceCtorEq] at alone

/-- Before the first element there is no other, and the cursor there is left as it is. -/
theorem run_stepBackward_locate_zero :
    stepBackward.run (locate forest 0) = .error .beforeStart (locate forest 0) := by
  rcases Nat.eq_zero_or_pos (forestLength forest) with vacant | inside
  · rw [locate_past (Nat.le_of_eq vacant)]
    unfold stepBackward
    simp only [atEnd, vacant, EStateM.run, get_bind, Option.isSome_none, Bool.false_and,
      Bool.false_eq_true, if_false, if_true]
    rfl
  · obtain ⟨root, place, located, cases⟩ := beside_locate counted .backward inside
    have nothing : Direction.backward.beside? (forestLength forest) 0 = none := rfl
    rw [nothing] at cases
    rcases cases with ⟨_, _, absurd, _⟩ | ⟨step, _⟩
    · cases absurd
    · rw [located]
      exact run_stepBackward_zero step

/-- The cursor after an element is that of the next position. -/
theorem advance_locate (inside : position < forestLength forest) :
    (locate forest position).advance = .ok (locate forest (position + 1)) := by
  rw [advance, after, run_stepForward_locate counted inside]

theorem retreat_locate (inside : position < forestLength forest) :
    (locate forest (position + 1)).retreat = .ok (locate forest position) := by
  rw [retreat, after, run_stepBackward_locate counted inside]

end Locate

/-- The cursor that a move leaves, also if the move was refused. -/
def moved (direction : Direction) (cursor : Cursor α) : Cursor α :=
  match (match direction with
    | .forward => stepForward
    | .backward => stepBackward : Move α Unit).run cursor with
  | .ok _ next => next
  | .error _ left => left

/-- The cursor after a row of moves. -/
def walk (moves : List Direction) (cursor : Cursor α) : Cursor α :=
  moves.foldl (fun cursor direction => cursor.moved direction) cursor

section Walk

variable (counted : ∀ tree ∈ forest, Tree.Counted tree)
include counted

/-- A move forward is to the next position. -/
theorem moved_forward_locate (inside : position < forestLength forest) :
    (locate forest position).moved .forward = locate forest (position + 1) := by
  simp only [moved, run_stepForward_locate counted inside]

theorem moved_backward_locate (inside : position < forestLength forest) :
    (locate forest (position + 1)).moved .backward = locate forest position := by
  simp only [moved, run_stepBackward_locate counted inside]

/-- A move of a located cursor leads to a located cursor. -/
theorem exists_moved_locate (inside : position ≤ forestLength forest) (direction : Direction) :
    ∃ next ≤ forestLength forest,
      (locate forest position).moved direction = locate forest next := by
  cases direction with
  | forward =>
      rcases Nat.eq_or_lt_of_le inside with last | before
      · refine ⟨position, inside, ?_⟩
        rw [locate_past (Nat.le_of_eq last.symm)]
        rfl
      · exact ⟨position + 1, before, moved_forward_locate counted before⟩
  | backward =>
      cases position with
      | zero =>
          refine ⟨0, inside, ?_⟩
          simp only [moved, run_stepBackward_locate_zero counted]
      | succ position =>
          exact ⟨position, Nat.le_of_succ_le inside, moved_backward_locate counted inside⟩

omit counted in
/-- All positions past the last element are the end. -/
theorem locate_min (forest : List (Tree α)) (position : Nat) :
    locate forest (min position (forestLength forest)) = locate forest position := by
  rcases Nat.le_total position (forestLength forest) with inside | past
  · rw [Nat.min_eq_left inside]
  · rw [Nat.min_eq_right past, locate_past past, locate_past (Nat.le_refl _)]

/-- After any moves a located cursor is a located cursor. -/
theorem exists_walk_locate (position : Nat) (moves : List Direction) :
    ∃ next ≤ forestLength forest, (locate forest position).walk moves = locate forest next := by
  induction moves generalizing position with
  | nil => exact ⟨_, Nat.min_le_right _ _, (locate_min forest position).symm⟩
  | cons direction moves ih =>
      -- Whatever the position, the cursor there is that of a position in the forest.
      have inside := Nat.min_le_right position (forestLength forest)
      obtain ⟨next, _, same⟩ := exists_moved_locate counted inside direction
      rw [walk, List.foldl_cons, ← locate_min forest position, same]
      exact ih next

/-- **A cursor depends only on its position**, whatever moves led there. -/
theorem walk_locate (position : Nat) (moves : List Direction) :
    (locate forest position).walk moves =
      locate forest ((locate forest position).walk moves).position := by
  obtain ⟨next, within, same⟩ := exists_walk_locate counted position moves
  rw [same, position_locate counted within]

/-- So many moves forward are to a position so much later. -/
theorem iterate_forward (count : Nat) (within : position + count ≤ forestLength forest) :
    (moved .forward)^[count] (locate forest position) = locate forest (position + count) := by
  induction count with
  | zero => rfl
  | succ count ih =>
      rw [Function.iterate_succ_apply', ih (by omega), moved_forward_locate counted (by omega)]
      rfl

theorem iterate_backward (count : Nat) (within : position + count ≤ forestLength forest) :
    (moved .backward)^[count] (locate forest (position + count)) = locate forest position := by
  induction count with
  | zero => rfl
  | succ count ih =>
      rw [Function.iterate_succ_apply, ← Nat.add_assoc, moved_backward_locate counted (by omega),
        ih (by omega)]

/-- **Traversal.** Forward moves meet the elements of a forest in order and end at its end. -/
theorem values_forward :
    (List.range (forestLength forest)).map
        (fun count => ((moved .forward)^[count] (atStart forest)).value?) =
      (forestElements forest).map some ∧
    (moved .forward)^[forestLength forest] (atStart forest) = atEnd forest := by
  have reach (count : Nat) (within : count ≤ forestLength forest) :
      (moved .forward)^[count] (atStart forest) = locate forest count := by
    rw [atStart, iterate_forward counted count (by omega), Nat.zero_add]
  constructor
  · apply List.ext_getElem
    · rw [List.length_map, List.length_map, List.length_range, length_forestElements counted]
    · intro count inside _
      rw [List.length_map, List.length_range] at inside
      rw [List.getElem_map, List.getElem_map, List.getElem_range, reach count (by omega),
        (value?_locate counted inside).2, List.getElem?_eq_getElem]
  · rw [reach _ (Nat.le_refl _), locate_past (Nat.le_refl _)]

/-- Backward moves from the end meet the elements of a forest in reverse and end at its start. -/
theorem values_backward :
    (List.range (forestLength forest)).map
        (fun count => ((moved .backward)^[count + 1] (atEnd forest)).value?) =
      (forestElements forest).reverse.map some ∧
    (moved .backward)^[forestLength forest] (atEnd forest) = atStart forest := by
  have reach (count : Nat) (within : count ≤ forestLength forest) :
      (moved .backward)^[count] (atEnd forest) = locate forest (forestLength forest - count) := by
    have back := iterate_backward counted count (Nat.le_of_eq (Nat.sub_add_cancel within))
    rw [Nat.sub_add_cancel within, locate_past (Nat.le_refl _)] at back
    exact back
  have length_eq := length_forestElements counted
  constructor
  · apply List.ext_getElem
    · rw [List.length_map, List.length_map, List.length_range, List.length_reverse, length_eq]
    · intro count inside _
      rw [List.length_map, List.length_range] at inside
      have within : forestLength forest - (count + 1) < forestLength forest := by omega
      rw [List.getElem_map, List.getElem_map, List.getElem_range, reach (count + 1) inside,
        (value?_locate counted within).2, List.getElem_reverse,
        List.getElem?_eq_getElem (length_eq ▸ within)]
      congr 2
      rw [← length_eq, Nat.sub_sub, Nat.add_comm]
  · rw [reach _ (Nat.le_refl _), Nat.sub_self]
    rfl

/-- **Cursors are canonical.** In any forest whose remembered lengths are right, a position is
located at its element, and moves in place lead from located cursor to located cursor, the same in
every part. Past the last element there is only the end. A move from the end or before the start is
refused and changes nothing. After any moves, therefore, a cursor is the one that is located at its
position. -/
theorem moves_canonical :
    forestLength forest = (forestElements forest).length ∧
    (∀ position < forestLength forest,
      locateFrom forest position 0 0 forest = .ok (locate forest position) ∧
      (locate forest position).value? = (forestElements forest)[position]? ∧
      (locate forest position).position = position ∧
      stepForward.run (locate forest position) = .ok () (locate forest (position + 1)) ∧
      stepBackward.run (locate forest (position + 1)) = .ok () (locate forest position)) ∧
    (∀ position, forestLength forest ≤ position →
      locateFrom forest position 0 0 forest = .ok (atEnd forest) ∧
      locate forest position = atEnd forest) ∧
    stepForward.run (atEnd forest) = .error .pastEnd (atEnd forest) ∧
    stepBackward.run (locate forest 0) = .error .beforeStart (locate forest 0) ∧
    (∀ position moves, (locate forest position).walk moves =
      locate forest ((locate forest position).walk moves).position) ∧
    ((List.range (forestLength forest)).map
        (fun count => ((moved .forward)^[count] (atStart forest)).value?) =
      (forestElements forest).map some ∧
      (moved .forward)^[forestLength forest] (atStart forest) = atEnd forest) ∧
    (List.range (forestLength forest)).map
        (fun count => ((moved .backward)^[count + 1] (atEnd forest)).value?) =
      (forestElements forest).reverse.map some ∧
    (moved .backward)^[forestLength forest] (atEnd forest) = atStart forest := by
  refine ⟨length_forestElements counted, ?_, ?_, run_stepForward_atEnd forest,
    run_stepBackward_locate_zero counted, walk_locate counted, values_forward counted,
    values_backward counted⟩
  · intro position inside
    obtain ⟨found, value⟩ := value?_locate counted inside
    exact ⟨found, value, position_locate counted (Nat.le_of_lt inside),
      run_stepForward_locate counted inside, run_stepBackward_locate counted inside⟩
  · intro position past
    exact ⟨locateFrom_past forest 0 0 (by rw [Nat.zero_add]; exact past), locate_past past⟩

end Walk

/-- Moves across empty chunks, trees and roots. -/
theorem moves_canonical_of_gaps :
    let gap : Tree UnitChunk := Tree.makeNode .standard []
    let left := Tree.makeNode .standard
      [gap, Tree.makeLeaf .standard [⟨[]⟩, ⟨[1]⟩, ⟨[]⟩], Tree.makeNode .standard [gap], gap]
    let right := Tree.makeNode .standard [Tree.makeLeaf .standard [⟨[2, 3]⟩, ⟨[]⟩]]
    let forest := [gap, left, gap, right, gap]
    stepForward.run (locate forest 0) = .ok () (locate forest 1) ∧
      stepBackward.run (locate forest 1) = .ok () (locate forest 0) ∧
      (List.range 3).map (fun count => ((moved .forward)^[count] (atStart forest)).value?) =
        [some 1, some 2, some 3] := by
  intro gap left right forest
  have counted : ∀ tree ∈ forest, Tree.Counted tree := by
    have made : ∀ tree ∈ forest, Tree.Made .standard tree := by
      have gap_made : Tree.Made .standard gap := .node [] (List.forall_mem_nil _)
      simp only [forest, List.forall_mem_cons]
      refine ⟨gap_made, .node _ ?_, gap_made, .node _ ?_, gap_made, List.forall_mem_nil _⟩
      · simp only [List.forall_mem_cons]
        refine ⟨gap_made, .leaf _, .node _ ?_, gap_made, List.forall_mem_nil _⟩
        exact List.forall_mem_singleton.mpr gap_made
      · exact List.forall_mem_singleton.mpr (.leaf _)
    exact fun tree member => (made tree member).counted
  obtain ⟨_, inside, _, _, _, _, ⟨values, _⟩, _⟩ := moves_canonical counted
  obtain ⟨_, _, _, forward, backward⟩ := inside 0 (by decide)
  exact ⟨forward, backward, values⟩

end Cursor
end GraphemeRope
