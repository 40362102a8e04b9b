import GraphemeRope.Proofs.Row
import GraphemeRope.Tree.Slot

/-! # Walking along a row of slots

The slots of a leaf, of a node and of a forest are rows of the same kind. An index of a row lies in
one of its slots, and the index beside it in the same slot or, if it is the last there in the
direction of the walk, in the next filled slot (`GraphemeRope.Direction.beyond_spec`). Everything
that is different about walking to the right and to the left is said here. -/

namespace GraphemeRope

variable {lengths : List Nat} {slot length : Nat}

/-- The first filled slot has only empty ones before it, and if there is none all are empty. -/
theorem filledFrom_spec (slot : Nat) (lengths : List Nat) :
    filledFrom slot lengths = none ∧ total lengths = 0 ∨
      ∃ count length, filledFrom slot lengths = some (slot + count) ∧
        lengths[count]? = some length ∧ 0 < length ∧ startOf lengths count = 0 := by
  induction lengths generalizing slot with
  | nil => exact .inl ⟨rfl, rfl⟩
  | cons first rest ih =>
      by_cases filled : 0 < first
      · exact .inr ⟨0, first, if_pos filled, rfl, filled, rfl⟩
      · have vacant : first = 0 := Nat.eq_zero_of_not_pos filled
        rw [filledFrom, if_neg filled]
        rcases ih (slot + 1) with ⟨missing, empty⟩ | ⟨count, length, found, owner, positive, start⟩
        · exact .inl ⟨missing, by rw [total, vacant, empty]⟩
        · refine .inr ⟨count + 1, length, ?_, owner, positive, ?_⟩
          · rw [found, Nat.add_assoc, Nat.add_comm 1]
          · rw [startOf, List.take_succ_cons, total, vacant, Nat.zero_add]
            exact start

/-- The last filled slot before another has only empty ones behind it, and if there is none all are
empty. -/
theorem filledBefore_spec (within : slot ≤ lengths.length) :
    filledBefore lengths slot = .ok none ∧ startOf lengths slot = 0 ∨
      ∃ found length, filledBefore lengths slot = .ok (some found) ∧
        lengths[found]? = some length ∧ 0 < length ∧
        startOf lengths found + length = startOf lengths slot := by
  induction slot with
  | zero => exact .inl ⟨rfl, rfl⟩
  | succ slot ih =>
      have owner := List.getElem?_eq_getElem within
      have step : filledBefore lengths (slot + 1) =
          if 0 < lengths[slot] then .ok (some slot) else filledBefore lengths slot := by
        rw [filledBefore, Guarded.get_of_lt within]
        rfl
      rw [step, startOf_succ owner]
      by_cases filled : 0 < lengths[slot]
      · rw [if_pos filled]
        exact .inr ⟨slot, lengths[slot], rfl, owner, filled, rfl⟩
      · have vacant : lengths[slot] = 0 := Nat.eq_zero_of_not_pos filled
        rw [if_neg filled, vacant, Nat.add_zero]
        exact ih (Nat.le_of_succ_le within)

namespace Direction

/-- Of so many elements in a row the one that a walk in this direction meets first. -/
def edgeOf (length : Nat) : Direction → Nat
  | .forward => 0
  | .backward => length - 1

/-- The index beside one of so many in a row, if there is one in this direction. -/
def beside? (length index : Nat) : Direction → Option Nat
  | .forward => if index + 1 < length then some (index + 1) else none
  | .backward => if 0 < index then some (index - 1) else none

variable {direction : Direction}

/-- The near edge of a filled slot is inside it. -/
theorem edgeOf_lt (filled : 0 < length) : direction.edgeOf length < length := by
  cases direction with
  | forward => exact filled
  | backward => exact Nat.sub_lt filled Nat.zero_lt_one

/-- A walk along a row that is not empty comes to a filled slot, and the edge of that slot is the
edge of the row. -/
theorem nearest_spec (direction : Direction) (filled : 0 < total lengths) :
    ∃ slot length, direction.nearest lengths = .ok (some slot) ∧ lengths[slot]? = some length ∧
      0 < length ∧ startOf lengths slot + direction.edgeOf length =
        direction.edgeOf (total lengths) := by
  cases direction with
  | forward =>
      rcases filledFrom_spec 0 lengths with
        ⟨_, empty⟩ | ⟨slot, length, found, owner, positive, start⟩
      · exact absurd filled (by rw [empty]; exact Nat.lt_irrefl 0)
      · rw [Nat.zero_add] at found
        exact ⟨slot, length, congrArg Except.ok found, owner, positive, start⟩
  | backward =>
      have whole : startOf lengths lengths.length = total lengths := by
        rw [startOf, List.take_length]
      rcases filledBefore_spec (Nat.le_refl lengths.length) with
        ⟨_, empty⟩ | ⟨slot, length, found, owner, positive, start⟩
      · exact absurd filled (by rw [← whole, empty]; exact Nat.lt_irrefl 0)
      · refine ⟨slot, length, found, owner, positive, ?_⟩
        rw [whole] at start
        simp only [edgeOf]
        omega

/-- An index beside another in the same slot is beside it in the row. -/
theorem beside?_of_inside {offset next : Nat} (owner : lengths[slot]? = some length)
    (within : offset < length) (beside : direction.beside? length offset = some next) :
    next < length ∧
      direction.beside? (total lengths) (startOf lengths slot + offset) =
        some (startOf lengths slot + next) := by
  have fits := startOf_add_le_total owner
  cases direction with
  | forward =>
      simp only [beside?, Option.ite_none_right_eq_some, Option.some.injEq] at beside ⊢
      omega
  | backward =>
      simp only [beside?, Option.ite_none_right_eq_some, Option.some.injEq] at beside ⊢
      omega

/-- **Leaving a slot.** Where the walk leaves a slot, either there is no filled slot beyond it and
the row ends, or the index beside is the edge of the next filled slot. -/
theorem beyond_spec {offset : Nat} (owner : lengths[slot]? = some length)
    (within : offset < length) (leaving : direction.beside? length offset = none) :
    direction.beyond lengths slot = .ok none ∧
        direction.beside? (total lengths) (startOf lengths slot + offset) = none ∨
      ∃ next filled, direction.beyond lengths slot = .ok (some next) ∧
        lengths[next]? = some filled ∧ 0 < filled ∧
        direction.beside? (total lengths) (startOf lengths slot + offset) =
          some (startOf lengths next + direction.edgeOf filled) := by
  have after := startOf_succ owner
  cases direction with
  | forward =>
      simp only [beside?, ite_eq_right_iff, reduceCtorEq, imp_false] at leaving
      -- Between the slot and the next filled one lie only empty slots, which hold no index.
      have rest := startOf_add_total_drop lengths (slot + 1)
      rcases filledFrom_spec (slot + 1) (lengths.drop (slot + 1)) with
        ⟨missing, empty⟩ | ⟨count, filled, found, next, positive, start⟩
      · refine .inl ⟨congrArg Except.ok missing, if_neg ?_⟩
        omega
      · rw [List.getElem?_drop] at next
        have fits := startOf_add_le_total next
        rw [startOf_add, start] at fits
        refine .inr ⟨slot + 1 + count, filled, congrArg Except.ok found, next, positive, ?_⟩
        rw [beside?, if_pos (by omega), startOf_add, start, edgeOf, after]
        exact congrArg some (by omega)
  | backward =>
      simp only [beside?, ite_eq_right_iff, reduceCtorEq, imp_false] at leaving
      have early : slot ≤ lengths.length := by
        obtain ⟨inside, _⟩ := List.getElem?_eq_some_iff.mp owner
        exact Nat.le_of_lt inside
      rcases filledBefore_spec early with
        ⟨missing, empty⟩ | ⟨next, filled, found, owner, positive, start⟩
      · refine .inl ⟨missing, if_neg ?_⟩
        omega
      · refine .inr ⟨next, filled, found, owner, positive, ?_⟩
        rw [beside?, if_pos (by omega), edgeOf]
        exact congrArg some (by omega)

end Direction
end GraphemeRope
