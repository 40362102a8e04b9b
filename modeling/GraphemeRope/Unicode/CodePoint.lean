/-! # Ranges of code points

A property of characters is given by a list of closed ranges of code points. -/

namespace GraphemeRope

/-- A closed range of code points, by its first and last member. -/
abbrev CodeRange := Nat × Nat

/-- Whether a character lies in one of the ranges. -/
def CodeRange.anyContains (ranges : List CodeRange) (c : Char) : Bool :=
  ranges.any fun range => range.1 ≤ c.toNat && c.toNat ≤ range.2

namespace CodeRange

theorem anyContains_iff {ranges : List CodeRange} {c : Char} :
    anyContains ranges c = true ↔ ∃ range ∈ ranges, range.1 ≤ c.toNat ∧ c.toNat ≤ range.2 := by
  simp only [anyContains, List.any_eq_true, Bool.and_eq_true, decide_eq_true_eq]

/-- A character of ranges that lie within others is in one of the others. -/
theorem anyContains_of_within {inner outer : List CodeRange} {c : Char}
    (within : ∀ range ∈ inner, ∃ wider ∈ outer, wider.1 ≤ range.1 ∧ range.2 ≤ wider.2)
    (contained : anyContains inner c = true) : anyContains outer c = true := by
  obtain ⟨range, member, first, last⟩ := anyContains_iff.mp contained
  obtain ⟨wider, present, before, after⟩ := within range member
  exact anyContains_iff.mpr ⟨wider, present, by omega, by omega⟩

/-- A character of ranges that meet no others is in none of the others. -/
theorem not_anyContains_of_apart {ranges others : List CodeRange} {c : Char}
    (apart : ∀ range ∈ ranges, ∀ other ∈ others, range.2 < other.1 ∨ other.2 < range.1)
    (contained : anyContains ranges c = true) : anyContains others c = false := by
  rw [← Bool.not_eq_true]
  intro both
  obtain ⟨range, member, first, last⟩ := anyContains_iff.mp contained
  obtain ⟨other, present, start, stop⟩ := anyContains_iff.mp both
  have disjoint := apart range member other present
  omega

end CodeRange

end GraphemeRope
