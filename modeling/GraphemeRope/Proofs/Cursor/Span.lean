import GraphemeRope.Cursor.Span
import GraphemeRope.Proofs.Cursor.Move

/-! # What a span yields

The span between two positions of a forest yields the elements between them, from the front in order
and from the back in reverse (`GraphemeRope.Span.toList_between` and
`GraphemeRope.Span.toListBack_between`). -/

namespace GraphemeRope
namespace Span

variable {α ε : Type} [Chunk α ε] {forest : List (Tree α)} {start stop : Nat}

/-- The span between two positions of a forest. -/
def between (forest : List (Tree α)) (start stop : Nat) : Span α :=
  ⟨Cursor.locate forest start, Cursor.locate forest stop⟩

variable (counted : ∀ tree ∈ forest, Tree.Counted tree)
include counted

/-- As many elements are left between two positions as they are apart. -/
theorem remaining_between (before : start ≤ forestLength forest)
    (inside : stop ≤ forestLength forest) :
    (between forest start stop).remaining = stop - start := by
  rw [remaining, between, Cursor.position_locate counted inside,
    Cursor.position_locate counted before]

/-- The front of a span that is not empty moves over the first element. -/
theorem next?_between (filled : start < stop) (inside : stop ≤ forestLength forest) :
    ∃ element, (forestElements forest)[start]? = some element ∧
      (between forest start stop).next? = some (element, between forest (start + 1) stop) := by
  have present : start < forestLength forest := Nat.lt_of_lt_of_le filled inside
  have value := (Cursor.value?_locate counted present).2
  rw [Cursor.length_forestElements counted] at present
  rw [List.getElem?_eq_getElem present] at value ⊢
  have left : ¬(between forest start stop).remaining = 0 := by
    rw [remaining_between counted (by omega) inside]
    omega
  refine ⟨_, rfl, ?_⟩
  rw [next?, if_neg left]
  simp only [between, value, Cursor.advance_locate counted (Nat.lt_of_lt_of_le filled inside)]

/-- The back of a span that is not empty moves over the last element. -/
theorem nextBack?_between (filled : start ≤ stop) (inside : stop < forestLength forest) :
    ∃ element, (forestElements forest)[stop]? = some element ∧
      (between forest start (stop + 1)).nextBack? =
        some (element, between forest start stop) := by
  have value := (Cursor.value?_locate counted inside).2
  have present := inside
  rw [Cursor.length_forestElements counted] at present
  rw [List.getElem?_eq_getElem present] at value ⊢
  have left : ¬(between forest start (stop + 1)).remaining = 0 := by
    rw [remaining_between counted (by omega) inside]
    omega
  refine ⟨_, rfl, ?_⟩
  rw [nextBack?, if_neg left]
  simp only [between, Cursor.retreat_locate counted inside, value, Option.map_some]

/-- What is taken from the front is the elements in order. -/
theorem takeFront_between (count : Nat) (inside : start + count ≤ forestLength forest) :
    takeFront count (between forest start (start + count)) =
      ((forestElements forest).drop start).take count := by
  induction count generalizing start with
  | zero => rfl
  | succ count ih =>
      have filled : start < start + (count + 1) := by omega
      obtain ⟨element, owner, step⟩ := next?_between counted filled inside
      obtain ⟨present, rfl⟩ := List.getElem?_eq_some_iff.mp owner
      have rest : start + (count + 1) = start + 1 + count := by omega
      rw [takeFront, step]
      simp only
      rw [List.drop_eq_getElem_cons present, List.take_succ_cons, rest, ih (by omega)]

/-- What is taken from the back is the elements in reverse. -/
theorem takeBack_between (count : Nat) (inside : start + count ≤ forestLength forest) :
    takeBack count (between forest start (start + count)) =
      (((forestElements forest).drop start).take count).reverse := by
  induction count with
  | zero => rfl
  | succ count ih =>
      obtain ⟨element, owner, step⟩ :=
        nextBack?_between counted (Nat.le_add_right start count) inside
      rw [takeBack, ← Nat.add_assoc, step]
      simp only
      rw [List.take_add_one, List.getElem?_drop, owner, List.reverse_append, ih (by omega)]
      rfl

/-- **Yielding in order.** -/
theorem toList_between (ordered : start ≤ stop) (inside : stop ≤ forestLength forest) :
    (between forest start stop).toList =
      ((forestElements forest).drop start).take (stop - start) := by
  obtain ⟨count, rfl⟩ := Nat.exists_eq_add_of_le ordered
  rw [toList, remaining_between counted (Nat.le_trans ordered inside) inside,
    Nat.add_sub_cancel_left, takeFront_between counted count inside]

/-- **Yielding in reverse.** -/
theorem toListBack_between (ordered : start ≤ stop) (inside : stop ≤ forestLength forest) :
    (between forest start stop).toListBack =
      (((forestElements forest).drop start).take (stop - start)).reverse := by
  obtain ⟨count, rfl⟩ := Nat.exists_eq_add_of_le ordered
  rw [toListBack, remaining_between counted (Nat.le_trans ordered inside) inside,
    Nat.add_sub_cancel_left, takeBack_between counted count inside]

end Span
end GraphemeRope
