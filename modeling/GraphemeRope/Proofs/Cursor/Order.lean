import GraphemeRope.Chunk.Grapheme
import GraphemeRope.Chunk.Unit
import GraphemeRope.Cursor.Order
import GraphemeRope.Proofs.Cursor.Move
import GraphemeRope.Unicode.Table
import Mathlib.Order.Basic

/-! # The order of cursors

Cursors are ordered by their positions. At one position they are the same if they stand alike, at
one offset of chunks of one content, and otherwise not ordered. In a forest the position decides how
a cursor stands, so there the order is total. Between forests it is still an order of whatever
stands alike (`GraphemeRope.Cursor.order_exact`). -/

namespace GraphemeRope

/-- Chunks of text are the same if they have one text. -/
theorem GraphemeChunk.beq_iff (first second : GraphemeChunk) :
    (first == second) = true ↔ first.text = second.text :=
  (beq_iff_eq : (first.text == second.text) = true ↔ first.text = second.text)

/-- Chunks of units are the same if they have the same units. -/
theorem UnitChunk.beq_iff (first second : UnitChunk) :
    (first == second) = true ↔ first.units = second.units := by
  cases first
  cases second
  rw [beq_iff_eq, UnitChunk.mk.injEq]

namespace Cursor

variable {α : Type} [BEq α]

section Positions

variable (first second : Cursor α)

/-- How two cursors compare, by how their positions do. -/
theorem compare?_spec :
    (first.position < second.position ∧ first.compare? second = some .lt) ∨
      (second.position < first.position ∧ first.compare? second = some .gt) ∨
      (first.position = second.position ∧
        first.compare? second = if first == second then some .eq else none) := by
  unfold compare?
  rcases Nat.lt_trichotomy first.position second.position with before | beside | after
  · rw [Nat.compare_eq_lt.mpr before]
    exact .inl ⟨before, rfl⟩
  · rw [Nat.compare_eq_eq.mpr beside]
    exact .inr (.inr ⟨beside, rfl⟩)
  · rw [Nat.compare_eq_gt.mpr after]
    exact .inr (.inl ⟨after, rfl⟩)

/-- A cursor is before another if its position is. -/
theorem lt_iff : first < second ↔ first.position < second.position := by
  change first.compare? second = some .lt ↔ _
  rcases compare?_spec first second with ⟨before, order⟩ | ⟨after, order⟩ | ⟨beside, order⟩
  · exact iff_of_true order before
  · rw [order]
    exact iff_of_false (by decide) (Nat.lt_asymm after)
  · rw [order, beside]
    refine iff_of_false ?_ (Nat.lt_irrefl _)
    split <;> simp only [Option.some.injEq, reduceCtorEq, not_false_eq_true]

end Positions

section Content

variable {γ : Type} {content : α → γ}
  (compared : ∀ first second : α, (first == second) = true ↔ content first = content second)

omit [BEq α] in
/-- Where a cursor stands: its position, its offset, and the content of its chunk. -/
def standing (content : α → γ) (cursor : Cursor α) : Nat × Nat × Option γ :=
  (cursor.position, cursor.offset, cursor.chunk?.map content)

include compared

/-- Two cursors have equal chunks exactly if these have the same content, or both have none. -/
theorem chunk?_beq_iff {left right : Option α} :
    (left == right) = true ↔ left.map content = right.map content := by
  cases left with
  | none => cases right <;> simp
  | some left =>
      cases right with
      | none => simp
      | some right =>
          rw [Option.some_beq_some, compared, Option.map_some, Option.map_some, Option.some_inj]

variable {first second : Cursor α}

/-- Cursors are the same if they stand alike. -/
theorem beq_iff : (first == second) = true ↔ first.standing content = second.standing content := by
  have unfolded : (first == second) = (first.position == second.position &&
      first.offset == second.offset && first.chunk? == second.chunk?) := rfl
  rw [unfolded, Bool.and_eq_true, Bool.and_eq_true, beq_iff_eq, beq_iff_eq,
    chunk?_beq_iff compared, standing, standing, Prod.mk.injEq, Prod.mk.injEq, and_assoc]

theorem position_eq_of_beq (same : (first == second) = true) : first.position = second.position :=
  congrArg Prod.fst ((beq_iff compared).mp same)

/-- Being the same is an equivalence. -/
theorem equivalence_beq : Equivalence fun first second : Cursor α => (first == second) = true where
  refl _ := (beq_iff compared).mpr rfl
  symm same := (beq_iff compared).mpr ((beq_iff compared).mp same).symm
  trans same next :=
    (beq_iff compared).mpr (((beq_iff compared).mp same).trans ((beq_iff compared).mp next))

/-- A comparison finds cursors the same exactly if they are equal. -/
theorem compare?_eq_eq_iff : first.compare? second = some .eq ↔ (first == second) = true := by
  rcases compare?_spec first second with ⟨before, order⟩ | ⟨after, order⟩ | ⟨beside, order⟩
  · rw [order]
    refine iff_of_false (by decide) fun same => ?_
    exact Nat.ne_of_lt before (position_eq_of_beq compared same)
  · rw [order]
    refine iff_of_false (by decide) fun same => ?_
    exact Nat.ne_of_gt after (position_eq_of_beq compared same)
  · rw [order, Option.ite_none_right_eq_some, and_iff_left rfl]

/-- Cursors are not ordered if they stand at one position, but not alike. -/
theorem compare?_eq_none_iff :
    first.compare? second = none ↔ first.position = second.position ∧
      (first.chunk?.map content ≠ second.chunk?.map content ∨ first.offset ≠ second.offset) := by
  rcases compare?_spec first second with ⟨before, order⟩ | ⟨after, order⟩ | ⟨beside, order⟩
  · rw [order]
    exact iff_of_false (by decide) fun apart => Nat.ne_of_lt before apart.1
  · rw [order]
    exact iff_of_false (by decide) fun apart => Nat.ne_of_gt after apart.1
  · rw [order, ite_eq_right_iff, beq_iff compared, standing, standing, Prod.mk.injEq,
      Prod.mk.injEq, and_iff_right beside, and_iff_right beside, ← not_and_or, and_comm]
    simp only [reduceCtorEq, imp_false]

/-- Comparing the other way round reverses the order. -/
theorem compare?_swap : second.compare? first = (first.compare? second).map Ordering.swap := by
  have alike : (second == first) = (first == second) :=
    Bool.eq_iff_iff.mpr ⟨(equivalence_beq compared).symm, (equivalence_beq compared).symm⟩
  rw [compare?, compare?, ← Nat.compare_swap first.position, alike]
  cases compare first.position second.position with
  | lt => rfl
  | gt => rfl
  | eq => cases first == second <;> rfl

/-- Cursors that are the same compare the same. -/
theorem compare?_congr {other another : Cursor α} (same : (first == other) = true)
    (alike : (second == another) = true) : first.compare? second = other.compare? another := by
  have beside := position_eq_of_beq compared same
  have along := position_eq_of_beq compared alike
  rw [beq_iff compared] at same alike
  have equal : (first == second) = (other == another) := by
    rw [Bool.eq_iff_iff, beq_iff compared, beq_iff compared, same, alike]
  rw [compare?, compare?, beside, along, equal]

end Content

section Forest

variable {ε : Type} [Chunk α ε] {forest : List (Tree α)} {first second : Cursor α}

omit [BEq α] in
/-- The cursors that are located in a forest and then moved. -/
def OfForest (forest : List (Tree α)) (cursor : Cursor α) : Prop :=
  ∃ position moves, cursor = (locate forest position).walk moves

variable (counted : ∀ tree ∈ forest, Tree.Counted tree)
include counted

omit [BEq α] in
/-- In a forest there is one cursor at a position. -/
theorem eq_of_position_eq (ofForest : OfForest forest first) (another : OfForest forest second)
    (beside : first.position = second.position) : first = second := by
  obtain ⟨position, moves, rfl⟩ := ofForest
  obtain ⟨other, others, rfl⟩ := another
  rw [walk_locate counted position, walk_locate counted other, beside]

section Ordered

variable {γ : Type} {content : α → γ}
  (compared : ∀ first second : α, (first == second) = true ↔ content first = content second)
include compared

/-- Cursors of one forest are equal exactly if their positions are the same. -/
theorem beq_iff_of_forest (ofForest : OfForest forest first) (another : OfForest forest second) :
    (first == second) = true ↔ first.position = second.position := by
  refine ⟨position_eq_of_beq compared, fun beside => ?_⟩
  rw [eq_of_position_eq counted ofForest another beside]
  exact (equivalence_beq compared).refl second

/-- In a forest cursors are ordered, as their positions are. -/
theorem compare?_of_forest (ofForest : OfForest forest first) (another : OfForest forest second) :
    first.compare? second = some (compare first.position second.position) := by
  rcases compare?_spec first second with ⟨before, order⟩ | ⟨after, order⟩ | ⟨beside, order⟩
  · rw [order, Nat.compare_eq_lt.mpr before]
  · rw [order, Nat.compare_eq_gt.mpr after]
  · rw [order, if_pos ((beq_iff_of_forest counted compared ofForest another).mpr beside),
      Nat.compare_eq_eq.mpr beside]

/-- Cursors of one forest have the order of their positions. -/
theorem le_iff_of_forest (ofForest : OfForest forest first) (another : OfForest forest second) :
    first ≤ second ↔ first.position ≤ second.position := by
  change first.compare? second = some .lt ∨ first.compare? second = some .eq ↔ _
  rw [compare?_of_forest counted compared ofForest another, Option.some_inj, Option.some_inj,
    Nat.compare_eq_lt, Nat.compare_eq_eq, Nat.le_iff_lt_or_eq]

/-- The order of the cursors of a forest is total. -/
theorem isLinearOrder_of_forest : Std.IsLinearOrder {cursor : Cursor α // OfForest forest cursor} :=
  have le_iff (left right : {cursor : Cursor α // OfForest forest cursor}) :
      left ≤ right ↔ left.val.position ≤ right.val.position :=
    le_iff_of_forest counted compared left.property right.property
  { le_refl := fun cursor => (le_iff _ _).mpr (Nat.le_refl _)
    le_trans := fun left middle right before after =>
      (le_iff _ _).mpr (Nat.le_trans ((le_iff left middle).mp before) ((le_iff _ _).mp after))
    le_antisymm := fun left right before after =>
      Subtype.ext (eq_of_position_eq counted left.property right.property
        (Nat.le_antisymm ((le_iff _ _).mp before) ((le_iff _ _).mp after)))
    le_total := fun left right => by
      rw [le_iff, le_iff]
      exact Nat.le_total _ _ }

end Ordered

end Forest

/-- **The order of cursors.** Let chunks be compared by their content. Cursors of one forest,
however they were moved, are the same exactly at one position, and are always ordered, as their
positions are, which is a total order. Of any cursors, whatever their forests are, being the same is
an equivalence. They compare as the same exactly if they are. They are not ordered exactly if they
are at one position and differ in the content of the chunk or in the offset. If they are exchanged,
they compare in reverse. And being before another is transitive and does not tell apart cursors that
are the same. -/
theorem order_exact {ε γ : Type} [Chunk α ε] {content : α → γ}
    (compared : ∀ first second : α,
      (first == second) = true ↔ content first = content second) :
    (∀ forest : List (Tree α), (∀ tree ∈ forest, Tree.Counted tree) →
      (∀ first second : Cursor α, OfForest forest first → OfForest forest second →
        ((first == second) = true ↔ first.position = second.position) ∧
        first.compare? second = some (compare first.position second.position)) ∧
      Std.IsLinearOrder {cursor : Cursor α // OfForest forest cursor}) ∧
    (Equivalence fun first second : Cursor α => (first == second) = true) ∧
    (∀ first second : Cursor α,
      (first.compare? second = some .eq ↔ (first == second) = true) ∧
      (first.compare? second = none ↔ first.position = second.position ∧
        (first.chunk?.map content ≠ second.chunk?.map content ∨ first.offset ≠ second.offset)) ∧
      second.compare? first = (first.compare? second).map Ordering.swap) ∧
    (∀ first second third : Cursor α, first < second → second < third → first < third) ∧
    ∀ first other second another : Cursor α, (first == other) = true →
      (second == another) = true →
        first.compare? second = other.compare? another ∧ (first < second ↔ other < another) := by
  refine ⟨?_, equivalence_beq compared, ?_, ?_, ?_⟩
  · intro forest counted
    refine ⟨?_, isLinearOrder_of_forest counted compared⟩
    intro first second ofForest another
    exact ⟨beq_iff_of_forest counted compared ofForest another,
      compare?_of_forest counted compared ofForest another⟩
  · intro first second
    exact ⟨compare?_eq_eq_iff compared, compare?_eq_none_iff compared, compare?_swap compared⟩
  · intro first second third before after
    rw [lt_iff] at before after ⊢
    exact Nat.lt_trans before after
  · intro first other second another same alike
    refine ⟨compare?_congr compared same alike, ?_⟩
    rw [lt_iff, lt_iff, position_eq_of_beq compared same, position_eq_of_beq compared alike]

/-- A chunk that is repeated in a forest, and that a shorter forest has behind an empty tree. The
end of the one and an element of the other are at one position. -/
theorem order_exact_of_repeats :
    let chunk : GraphemeChunk := ⟨[['a'], ['b']]⟩
    let forest := [Tree.makeLeaf .standard [⟨[]⟩, chunk, chunk]]
    let shorter := [Tree.makeNode .standard [], Tree.makeLeaf .standard [chunk]]
    let units : List (Tree UnitChunk) := [Tree.makeLeaf .standard [⟨[1]⟩, ⟨[]⟩, ⟨[1]⟩]]
    (locate forest 0).compare? ((locate forest 0).walk [.forward, .forward]) = some .lt ∧
      (locate forest 1).compare? (locate shorter 1) = some .eq ∧
      (locate forest 2).compare? (locate shorter 2) = none ∧
      locate forest 1 < locate shorter 2 ∧
      ((locate units 0).walk [.forward]).compare? (locate units 0) = some .gt := by
  intro chunk forest shorter units
  obtain ⟨within, _, between, _, respected⟩ := order_exact GraphemeChunk.beq_iff
  obtain ⟨withinUnits, _⟩ := order_exact UnitChunk.beq_iff
  have counted : ∀ tree ∈ forest, Tree.Counted tree :=
    List.forall_mem_singleton.mpr (Tree.Made.leaf _).counted
  have countedUnits : ∀ tree ∈ units, Tree.Counted tree :=
    List.forall_mem_singleton.mpr (Tree.Made.leaf _).counted
  have same : (locate forest 1 == locate shorter 1) = true := by rfl
  have alike : (locate shorter 2 == locate shorter 2) = true := by rfl
  refine ⟨?_, (between _ _).1.mpr same, (between _ _).2.1.mpr ⟨by rfl, .inl (by decide)⟩,
    (respected _ _ _ _ same alike).2.mpr (by decide), ?_⟩
  · exact ((within forest counted).1 _ _ ⟨0, [], rfl⟩ ⟨0, [.forward, .forward], rfl⟩).2
  · exact ((withinUnits units countedUnits).1 _ _ ⟨0, [.forward], rfl⟩ ⟨0, [], rfl⟩).2

end Cursor
end GraphemeRope
