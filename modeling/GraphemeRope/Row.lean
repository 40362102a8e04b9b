/-! # Rows

Chunks, trees and clusters stand in rows. A row is cut into groups from the left, its lengths are
added up, and its last entry may differ from the others. -/

namespace GraphemeRope

variable {β : Type}

/-- Consecutive groups of `size` entries, the last one possibly shorter. A size of zero counts as
one, and an empty row has no groups. -/
def groups (size : Nat) : List β → List (List β)
  | [] => []
  | entry :: rest => (entry :: rest.take (size - 1)) :: groups size (rest.drop (size - 1))
termination_by entries => entries.length
decreasing_by
  simp only [List.length_cons, List.length_drop]
  omega

/-- Grouping by two or more at least halves the number of entries, up to rounding. -/
theorem length_groups_le {size : Nat} (atLeastTwo : 2 ≤ size) (entries : List β) :
    2 * (groups size entries).length ≤ entries.length + 1 := by
  induction entries using groups.induct size with
  | case1 => simp [groups]
  | case2 entry rest ih =>
      simp only [groups, List.length_cons, List.length_drop] at ih ⊢
      by_cases short : rest.length ≤ size - 1
      · have nothing : rest.drop (size - 1) = [] := List.drop_eq_nil_of_le short
        simp only [nothing, groups, List.length_nil]
        omega
      · omega

/-- Whether all entries but the last are `full` and the last is `fitting`. -/
def packed (full fitting : β → Bool) : List β → Bool
  | [] => true
  | [entry] => fitting entry
  | entry :: next :: rest => full entry && packed full fitting (next :: rest)

/-- The sum of a row of lengths. -/
def total : List Nat → Nat
  | [] => 0
  | length :: rest => length + total rest

end GraphemeRope
