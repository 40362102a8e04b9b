import GraphemeRope.Chunk.Unit
import GraphemeRope.Proofs.Cursor.Span

/-! # Consuming a span from both ends

However calls at the front and at the back of a span are mixed, the elements that the front has
yielded, those that are left and those that the back has yielded in reverse make up the elements of
the span, and a span that is used up stays as it is (`GraphemeRope.Span.draws_exact`). -/

namespace GraphemeRope

/-- The elements of a forest from one position up to another, of which there are none if the
positions are in the wrong order. -/
def elementsBetween {α ε : Type} [Chunk α ε] (forest : List (Tree α)) (start stop : Nat) : List ε :=
  ((forestElements forest).take stop).drop start

/-- What the calls at one end have yielded, of all that a row of calls has returned. -/
def yieldedAt {β : Type} (edge : Direction) (calls : List Direction) (values : List (Option β)) :
    List β :=
  (List.zipWith (fun call value => if call = edge then value.toList else []) calls values).flatten

/-- What the first call yields comes before what the others yield at the same end. -/
theorem yieldedAt_cons {β : Type} (edge call : Direction) (calls : List Direction)
    (value : Option β) (values : List (Option β)) :
    yieldedAt edge (call :: calls) (value :: values) =
      yieldedAt edge [call] [value] ++ yieldedAt edge calls values := by
  simp only [yieldedAt, List.zipWith_cons_cons, List.zipWith_nil_left, List.flatten_cons,
    List.flatten_nil, List.append_nil]

namespace Span

variable {α ε : Type} [Chunk α ε]

section Calls

variable {span later earlier : Span α} {element : ε}

/-- A move of the front cursor leaves the back one where it is, even if it is refused. -/
theorem run_moveFront (move : Cursor.Move α Unit) (span : Span α) :
    (moveFront move).run span =
      match move.run span.front with
      | .ok _ front => .ok () { span with front }
      | .error error front => .error error { span with front } := rfl

/-- A move of the back cursor leaves the front one where it is, even if it is refused. -/
theorem run_moveBack (move : Cursor.Move α Unit) (span : Span α) :
    (moveBack move).run span =
      match move.run span.back with
      | .ok _ back => .ok () { span with back }
      | .error error back => .error error { span with back } := rfl

/-- A span that is used up is left as it is. -/
theorem run_draw_of_empty (empty : span.remaining = 0) (direction : Direction) :
    (draw direction).run span = .ok none span := by
  simp only [draw, EStateM.run_bind, EStateM.run_get, if_pos empty]
  rfl

/-- A call at the front reads the front cursor and moves it on. -/
theorem run_draw_forward (filled : span.remaining ≠ 0) :
    (draw .forward).run span =
      match Cursor.stepForward.run span.front with
      | .ok _ front => .ok span.front.value? { span with front }
      | .error error front => .error error { span with front } := by
  simp only [draw, EStateM.run_bind, EStateM.run_get, if_neg filled, run_moveFront]
  cases Cursor.stepForward.run span.front with
  | ok _ front => rfl
  | error error front => rfl

/-- A call at the back moves the back cursor and reads it. -/
theorem run_draw_backward (filled : span.remaining ≠ 0) :
    (draw .backward).run span =
      match Cursor.stepBackward.run span.back with
      | .ok _ back => .ok back.value? { span with back }
      | .error error back => .error error { span with back } := by
  simp only [draw, EStateM.run_bind, EStateM.run_get, if_neg filled, run_moveBack]
  cases Cursor.stepBackward.run span.back with
  | ok _ back => rfl
  | error error back => rfl

/-- A call at the front yields an element if and only if there is a first one. -/
theorem run_draw_forward_iff :
    (draw .forward).run span = .ok (some element) later ↔ span.next? = some (element, later) := by
  by_cases empty : span.remaining = 0
  · simp only [run_draw_of_empty empty, next?, if_pos empty, EStateM.Result.ok.injEq, reduceCtorEq,
      false_and]
  · rw [run_draw_forward empty, next?, if_neg empty, Cursor.advance, Cursor.after]
    cases Cursor.stepForward.run span.front with
    | ok _ front =>
      cases span.front.value? with
      | none => simp only [EStateM.Result.ok.injEq, reduceCtorEq, false_and]
      | some first => simp only [EStateM.Result.ok.injEq, Option.some.injEq, Prod.mk.injEq]
    | error error front =>
      cases span.front.value? with
      | none => simp only [reduceCtorEq]
      | some first => simp only [reduceCtorEq]

/-- A call at the back yields an element if and only if there is a last one. -/
theorem run_draw_backward_iff :
    (draw .backward).run span = .ok (some element) earlier ↔
      span.nextBack? = some (element, earlier) := by
  by_cases empty : span.remaining = 0
  · simp only [run_draw_of_empty empty, nextBack?, if_pos empty, EStateM.Result.ok.injEq,
      reduceCtorEq, false_and]
  · rw [run_draw_backward empty, nextBack?, if_neg empty, Cursor.retreat, Cursor.after]
    cases Cursor.stepBackward.run span.back with
    | ok _ back =>
      dsimp only
      cases back.value? with
      | none => simp only [EStateM.Result.ok.injEq, reduceCtorEq, false_and, Option.map_none]
      | some last =>
          simp only [EStateM.Result.ok.injEq, Option.map_some, Option.some.injEq, Prod.mk.injEq]
    | error error back => simp only [reduceCtorEq]

/-- Draws from an empty span give nothing and leave it as it is. -/
theorem run_draws_of_empty (empty : span.remaining = 0) (calls : List Direction) :
    (calls.mapM draw).run span = .ok (List.replicate calls.length none) span := by
  induction calls with
  | nil => rfl
  | cons call calls ih =>
      rw [List.mapM_cons, EStateM.run_bind, run_draw_of_empty empty call]
      simp only [EStateM.run_bind, ih]
      rfl

end Calls

section Between

variable {forest : List (Tree α)} {start stop : Nat}

/-- Between crossed positions there is no element. -/
theorem elementsBetween_of_le (crossed : stop ≤ start) : elementsBetween forest start stop = [] :=
  List.drop_eq_nil_of_le (Nat.le_trans (List.length_take_le stop _) crossed)

/-- The first of the elements between two positions. -/
theorem elementsBetween_first {element : ε} (owner : (forestElements forest)[start]? = some element)
    (filled : start < stop) :
    elementsBetween forest start stop = element :: elementsBetween forest (start + 1) stop := by
  have taken : ((forestElements forest).take stop)[start]? = some element := by
    rw [List.getElem?_take_of_lt filled, owner]
  obtain ⟨present, rfl⟩ := List.getElem?_eq_some_iff.mp taken
  exact List.drop_eq_getElem_cons present

/-- The last of the elements between two positions. -/
theorem elementsBetween_last {element : ε} (owner : (forestElements forest)[stop]? = some element)
    (filled : start ≤ stop) :
    elementsBetween forest start (stop + 1) = elementsBetween forest start stop ++ [element] := by
  obtain ⟨present, _⟩ := List.getElem?_eq_some_iff.mp owner
  have reached : start ≤ ((forestElements forest).take stop).length := by
    rw [List.length_take, Nat.min_eq_left (Nat.le_of_lt present)]
    exact filled
  rw [elementsBetween, List.take_add_one, owner, List.drop_append_of_le_length reached]
  rfl

/-- Whether a row of calls has yielded these values at both ends of the span between two positions,
and left the span between `next` and `last` of it: the elements that were yielded at the front,
those that are left and those that were yielded at the back in reverse are those there were, and
each call has yielded one while there were any. -/
structure Drawn (forest : List (Tree α)) (start stop : Nat) (calls : List Direction)
    (values : List (Option ε)) (next last : Nat) : Prop where
  whole :
    yieldedAt .forward calls values ++ elementsBetween forest next last ++
        (yieldedAt .backward calls values).reverse =
      elementsBetween forest start stop
  fewer : last - next = stop - start - calls.length

/-- What one call has yielded and what the calls after it have yielded is what all have yielded. -/
theorem Drawn.cons {call : Direction} {calls : List Direction} {value : Option ε}
    {values : List (Option ε)} {next last later earlier : Nat}
    (first : Drawn forest start stop [call] [value] next last)
    (rest : Drawn forest next last calls values later earlier) :
    Drawn forest start stop (call :: calls) (value :: values) later earlier where
  whole := by
    rw [yieldedAt_cons .forward, yieldedAt_cons .backward, List.reverse_append, ← first.whole,
      ← rest.whole]
    simp only [List.append_assoc]
  fewer := by
    rw [rest.fewer, first.fewer, Nat.sub_sub _ [call].length, List.length_cons, Nat.add_comm]
    rfl

variable (counted : ∀ tree ∈ forest, Tree.Counted tree)
include counted

/-- Between two positions of a forest lie as many elements as they are apart. -/
theorem length_elementsBetween (inside : stop ≤ forestLength forest) :
    (elementsBetween forest start stop).length = stop - start := by
  rw [elementsBetween, List.length_drop, List.length_take, ← Cursor.length_forestElements counted,
    Nat.min_eq_left inside]

/-- **One call.** A call at either end of a span between two positions is not refused, and leaves a
span between two positions. -/
theorem exists_run_draw (before : start ≤ forestLength forest) (inside : stop ≤ forestLength forest)
    (call : Direction) :
    ∃ value : Option ε, ∃ next ≤ forestLength forest, ∃ last ≤ forestLength forest,
      (draw call).run (between forest start stop) = .ok value (between forest next last) ∧
        Drawn forest start stop [call] [value] next last := by
  rcases Nat.lt_or_ge start stop with filled | crossed
  · cases call with
    | forward =>
      obtain ⟨element, owner, step⟩ := next?_between counted filled inside
      refine ⟨some element, start + 1, Nat.le_trans filled inside, stop, inside,
        run_draw_forward_iff.mpr step, ?_, (Nat.sub_sub _ _ _).symm⟩
      rw [elementsBetween_first owner filled]
      exact List.append_nil _
    | backward =>
      obtain ⟨last, rfl⟩ := Nat.exists_eq_succ_of_ne_zero (Nat.ne_zero_of_lt filled)
      have ordered : start ≤ last := Nat.le_of_lt_succ filled
      obtain ⟨element, owner, step⟩ := nextBack?_between counted ordered inside
      refine ⟨some element, start, before, last, Nat.le_of_succ_le inside,
        run_draw_backward_iff.mpr step, (elementsBetween_last owner ordered).symm, ?_⟩
      rw [List.length_singleton, Nat.succ_sub ordered, Nat.succ_sub_one]
  · have nothing : stop - start = 0 := Nat.sub_eq_zero_of_le crossed
    have empty := (remaining_between counted before inside).trans nothing
    refine ⟨none, start, before, stop, inside, run_draw_of_empty empty call, ?_, ?_⟩
    · rw [elementsBetween_of_le crossed]
      cases call with
      | forward => rfl
      | backward => rfl
    · rw [nothing, Nat.zero_sub]

/-- **A row of calls**, mixed in any manner, is not refused either. -/
theorem exists_run_draws (before : start ≤ forestLength forest)
    (inside : stop ≤ forestLength forest) (calls : List Direction) :
    ∃ values : List (Option ε), ∃ next ≤ forestLength forest, ∃ last ≤ forestLength forest,
      (calls.mapM draw).run (between forest start stop) = .ok values (between forest next last) ∧
        Drawn forest start stop calls values next last := by
  -- What a call leaves lies between two positions again, one of them moved.
  induction calls generalizing start stop with
  | nil => exact ⟨[], start, before, stop, inside, rfl, List.append_nil _, rfl⟩
  | cons call calls ih =>
      obtain ⟨value, next, nextInside, last, lastInside, run, first⟩ :=
        exists_run_draw counted before inside call
      obtain ⟨values, later, laterInside, earlier, earlierInside, runs, rest⟩ :=
        ih nextInside lastInside
      refine ⟨value :: values, later, laterInside, earlier, earlierInside, ?_, first.cons rest⟩
      rw [List.mapM_cons, EStateM.run_bind, run]
      simp only [EStateM.run_bind, runs]
      rfl

/-- What is left between two positions is what a traversal yields in either direction. -/
theorem toList_eq_elementsBetween (before : start ≤ forestLength forest)
    (inside : stop ≤ forestLength forest) :
    (between forest start stop).toList = elementsBetween forest start stop ∧
      (between forest start stop).toListBack = (elementsBetween forest start stop).reverse := by
  rcases Nat.le_total start stop with ordered | crossed
  · rw [toList_between counted ordered inside, toListBack_between counted ordered inside,
      elementsBetween, List.drop_take]
    exact ⟨rfl, rfl⟩
  · have empty := remaining_between counted before inside
    rw [Nat.sub_eq_zero_of_le crossed] at empty
    rw [toList, toListBack, empty, elementsBetween_of_le crossed]
    exact ⟨rfl, rfl⟩

/-- **Consuming a span from both ends loses nothing and repeats nothing.** Whatever moves led to the
cursors of a span, and in whatever order it is consumed from both ends, no call is refused. The
elements that the front has yielded, those that are left and those that the back has yielded in
reverse are the elements from the front cursor up to the back cursor. What is left is what a
traversal in either direction yields, it is as long as announced, and each call has made it shorter
until it was empty. From then on every call leaves both cursors alone. -/
theorem draws_exact (first last : Nat) (moves others calls : List Direction) :
    let span : Span α :=
      ⟨(Cursor.locate forest first).walk moves, (Cursor.locate forest last).walk others⟩
    let shown := elementsBetween forest span.front.position span.back.position
    ∃ values left, (calls.mapM draw).run span = .ok values left ∧
      let middle := elementsBetween forest left.front.position left.back.position
      yieldedAt .forward calls values ++ middle ++ (yieldedAt .backward calls values).reverse =
          shown ∧
        left.toList = middle ∧ left.toListBack = middle.reverse ∧
        left.remaining = middle.length ∧
        left.sizeHint = (middle.length, some middle.length) ∧
        middle.length = shown.length - calls.length ∧
        (middle = [] → ∀ more : List Direction,
          (more.mapM draw).run left = .ok (List.replicate more.length none) left) := by
  obtain ⟨start, before, front⟩ := Cursor.exists_walk_locate counted first moves
  obtain ⟨stop, inside, back⟩ := Cursor.exists_walk_locate counted last others
  obtain ⟨values, next, nextInside, last, lastInside, run, drawn⟩ :=
    exists_run_draws counted before inside calls
  simp only [front, back, Cursor.position_locate counted before,
    Cursor.position_locate counted inside]
  refine ⟨values, between forest next last, run, ?_⟩
  have remaining_eq := remaining_between counted nextInside lastInside
  have length_eq : (elementsBetween forest next last).length = last - next :=
    length_elementsBetween counted lastInside
  obtain ⟨list, listBack⟩ := toList_eq_elementsBetween counted nextInside lastInside
  simp only [between, Cursor.position_locate counted nextInside,
    Cursor.position_locate counted lastInside]
  refine ⟨drawn.whole, list, listBack, remaining_eq.trans length_eq.symm, ?_, ?_, ?_⟩
  · rw [length_eq, ← remaining_eq]
    rfl
  · rw [length_eq, drawn.fewer, length_elementsBetween counted inside]
  · intro empty more
    refine run_draws_of_empty (remaining_eq.trans ?_) more
    rw [← length_eq, empty]
    rfl

end Between

/-- Calls at both ends of a span across empty chunks and roots, until there is nothing left. -/
theorem draws_exact_of_gaps :
    let gap : Tree UnitChunk := Tree.makeNode .standard []
    let left := Tree.makeNode .standard [gap, Tree.makeLeaf .standard [⟨[]⟩, ⟨[1, 2]⟩, ⟨[]⟩]]
    let right := Tree.makeNode .standard [Tree.makeLeaf .standard [⟨[3]⟩], gap]
    let forest := [gap, left, gap, right, gap]
    let calls : List Direction := [.forward, .backward, .backward, .forward]
    ∃ values later, (calls.mapM draw).run (between forest 0 3) = .ok values later ∧
      values = [some 1, some 3, some 2, none] ∧ later.sizeHint = (0, some 0) := by
  intro gap left right forest calls
  have counted : ∀ tree ∈ forest, Tree.Counted tree := by
    have made : ∀ tree ∈ forest, Tree.Made .standard tree := by
      have gap_made : Tree.Made .standard gap := .node [] (List.forall_mem_nil _)
      simp only [forest, List.forall_mem_cons]
      refine ⟨gap_made, .node _ ?_, gap_made, .node _ ?_, gap_made, List.forall_mem_nil _⟩
      · simp only [List.forall_mem_cons]
        exact ⟨gap_made, .leaf _, List.forall_mem_nil _⟩
      · simp only [List.forall_mem_cons]
        exact ⟨.leaf _, gap_made, List.forall_mem_nil _⟩
    exact fun tree member => (made tree member).counted
  obtain ⟨values, later, run, whole, _, _, _, hint, shorter, _⟩ :=
    draws_exact counted 0 3 [] [] calls
  have returned : values = [some 1, some 3, some 2, none] := by
    cases run
    rfl
  refine ⟨values, later, run, returned, ?_⟩
  rw [hint, shorter]
  rfl

end Span
end GraphemeRope
