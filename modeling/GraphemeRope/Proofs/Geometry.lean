import GraphemeRope.Guarded.Geometry
import Mathlib.Algebra.BigOperators.Group.Finset.Basic
import Mathlib.Algebra.Group.Nat.Defs

/-! # Digits of an index

A slot of a full tree holds a power of two of elements, its *weight*. For an index of 64 bits the
shifts, and their cut at the width of an index, do what division by the weight does in unbounded
numbers. So the slots on the way to an element and its offset in the chunk are the digits of its
index, at any height whose shift is itself a number of 64 bits
(`GraphemeRope.Geometry.digits_exact`).
-/

namespace GraphemeRope
namespace Geometry

variable (geometry : Geometry)

/-- The number of elements in a slot of a full tree of the given height, however great. -/
def weight (height : Nat) : Nat := 2 ^ geometry.slotShift height

theorem branching_eq : geometry.branching = 2 ^ geometry.branchingBits := Nat.one_shiftLeft _

theorem leafLength_eq : geometry.leafLength = 2 ^ geometry.leafBits := Nat.one_shiftLeft _

theorem branching_pos : 0 < geometry.branching := by
  rw [branching_eq]
  exact Nat.two_pow_pos _

theorem leafLength_pos : 0 < geometry.leafLength := by
  rw [leafLength_eq]
  exact Nat.two_pow_pos _

theorem weight_pos (height : Nat) : 0 < geometry.weight height := Nat.two_pow_pos _

/-- A slot of a leaf is a chunk. -/
theorem weight_zero : geometry.weight 0 = geometry.leafLength := by
  rw [weight, slotShift, Nat.mul_zero, Nat.add_zero, leafLength_eq]

/-- A slot of a node weighs as much as all slots of a full tree below it. -/
theorem weight_succ (height : Nat) :
    geometry.weight (height + 1) = geometry.weight height * geometry.branching := by
  rw [weight, weight, slotShift, slotShift, branching_eq, Nat.mul_succ, ← Nat.add_assoc,
    Nat.pow_add]

/-- A weight is an index exactly if its shift moves a bit by less than the width of an index. -/
theorem weight_lt_iff (height : Nat) :
    geometry.weight height < 2 ^ indexBits ↔ geometry.slotShift height < indexBits :=
  Nat.pow_lt_pow_iff_right (by decide)

/-- The capacity of a tree is the weight of a slot above it, if that is an index. -/
theorem capacity_of_lt {height : Nat} (small : geometry.weight (height + 1) < 2 ^ indexBits) :
    geometry.capacity height = geometry.weight (height + 1) := by
  rw [capacity, if_pos ((geometry.weight_lt_iff _).mp small), Nat.one_shiftLeft, weight]

/-- The capacity of a tree is the greatest index if the weight of a slot above it is beyond. -/
theorem capacity_of_le {height : Nat} (large : 2 ^ indexBits ≤ geometry.weight (height + 1)) :
    geometry.capacity height = 2 ^ indexBits - 1 := by
  have wide : ¬geometry.slotShift (height + 1) < indexBits := fun narrow =>
    Nat.not_lt.mpr large ((geometry.weight_lt_iff _).mpr narrow)
  rw [capacity, if_neg wide, Nat.one_shiftLeft]

/-- A number of elements below the greatest index fits the capacity exactly if it fits the slot. -/
theorem le_capacity_iff {count : Nat} (representable : count < 2 ^ indexBits) (height : Nat) :
    count ≤ geometry.capacity height ↔ count ≤ geometry.weight (height + 1) := by
  rcases Nat.lt_or_ge (geometry.weight (height + 1)) (2 ^ indexBits) with small | large
  · rw [geometry.capacity_of_lt small]
  · rw [geometry.capacity_of_le large]
    exact iff_of_true (Nat.le_sub_one_of_lt representable)
      (Nat.le_trans (Nat.le_of_lt representable) large)

/-- The slot digit of an index of 64 bits. -/
theorem slot_eq {index : Nat} (bounded : index < 2 ^ indexBits) (height : Nat) :
    geometry.slot index height = index / geometry.weight height % geometry.branching := by
  unfold slot
  split
  · rw [Nat.shiftRight_eq_div_pow, weight]
  · next wide =>
    have large : 2 ^ indexBits ≤ geometry.weight height :=
      Nat.not_lt.mp fun small => wide ((geometry.weight_lt_iff _).mp small)
    rw [Nat.div_eq_of_lt (Nat.lt_of_lt_of_le bounded large), Nat.zero_mod]

/-- The slot digit, from what the digits up to it leave of the index. -/
theorem slot_eq_div {index : Nat} (bounded : index < 2 ^ indexBits) (height : Nat) :
    geometry.slot index height =
      index % geometry.weight (height + 1) / geometry.weight height := by
  rw [geometry.slot_eq bounded, weight_succ, Nat.mod_mul_right_div_self]

/-- What a weight leaves of an index is left of what the next weight leaves of it. -/
theorem mod_weight_succ_mod (index height : Nat) :
    index % geometry.weight (height + 1) % geometry.weight height =
      index % geometry.weight height := by
  rw [weight_succ, Nat.mod_mul_right_mod]

theorem leafOffset_lt (index : Nat) : geometry.leafOffset index < geometry.leafLength :=
  Nat.mod_lt _ geometry.leafLength_pos

theorem slot_lt (index height : Nat) : geometry.slot index height < geometry.branching := by
  unfold slot
  split
  · exact Nat.mod_lt _ geometry.branching_pos
  · exact geometry.branching_pos

/-- The weight of a slot, as the elements of a chunk times the slots of the levels below. -/
theorem weight_eq (height : Nat) :
    geometry.weight height = geometry.leafLength * geometry.branching ^ height := by
  induction height with
  | zero => rw [weight_zero, Nat.pow_zero, Nat.mul_one]
  | succ height ih => rw [weight_succ, ih, Nat.pow_succ, Nat.mul_assoc]

/-- A capacity is the weight of a slot above the tree, capped at the greatest index. -/
theorem capacity_eq_min (height : Nat) :
    geometry.capacity height = min (geometry.weight (height + 1)) (2 ^ indexBits - 1) := by
  rcases Nat.lt_or_ge (geometry.weight (height + 1)) (2 ^ indexBits) with small | large
  · rw [geometry.capacity_of_lt small, Nat.min_eq_left (Nat.le_sub_one_of_lt small)]
  · rw [geometry.capacity_of_le large, Nat.min_eq_right (Nat.le_trans (Nat.sub_le _ _) large)]

/-- What fills a tree is an even number, unlike the greatest index. -/
theorem weight_succ_ne_greatest (height : Nat) :
    geometry.weight (height + 1) ≠ 2 ^ indexBits - 1 := by
  intro same
  have even : geometry.weight (height + 1) % 2 = 0 := by
    rw [weight_succ, branching_eq]
    exact Nat.mod_eq_zero_of_dvd (Nat.dvd_mul_left_of_dvd
      (dvd_pow_self 2 (Nat.ne_of_gt geometry.branchingBits_valid.1)) _)
  rw [same] at even
  exact absurd even (by decide)

/-- The digits below a height make up what the weight of the height leaves of an index. -/
theorem sum_digits_eq_mod {index : Nat} (bounded : index < 2 ^ indexBits) (height : Nat) :
    geometry.leafOffset index +
        ∑ level ∈ Finset.range height, geometry.slot index level * geometry.weight level =
      index % geometry.weight height := by
  induction height with
  | zero => rw [Finset.sum_range_zero, Nat.add_zero, leafOffset, weight_zero]
  | succ height ih =>
      rw [Finset.sum_range_succ, ← Nat.add_assoc, ih, geometry.slot_eq bounded, weight_succ,
        Nat.mod_mul, Nat.mul_comm (geometry.weight height)]

/-- The shifts of a geometry grow with the height, by a bit or more for each level. -/
theorem slotShift_mono {lower upper : Nat} (below : lower ≤ upper) :
    geometry.slotShift lower ≤ geometry.slotShift upper :=
  Nat.add_le_add_left (Nat.mul_le_mul_left _ below) _

theorem le_slotShift (height : Nat) : height ≤ geometry.slotShift height :=
  Nat.le_trans (Nat.le_mul_of_pos_left _ geometry.branchingBits_valid.1) (Nat.le_add_left _ _)

end Geometry

namespace Guarded

variable {overflow : Overflow} {geometry : Geometry} {index height : Nat}

/-- A number that fits is kept, whatever becomes of others. -/
theorem inBits_of_lt {fault : Fault} {number : Nat} (small : number < 2 ^ Geometry.indexBits) :
    inBits overflow fault number = .ok number := by
  rw [← Nat.one_shiftLeft] at small
  exact if_pos small

/-- A number that does not fit is a fault where arithmetic is checked. -/
theorem inBits_of_le {fault : Fault} {number : Nat} (large : 2 ^ Geometry.indexBits ≤ number) :
    inBits .stops fault number = .error fault := by
  rw [← Nat.one_shiftLeft] at large
  exact if_neg (Nat.not_lt.mpr large)

/-- A shift that is a number of the bits of an index is computed as it is. -/
theorem slotShift_of_lt (small : geometry.slotShift height < 2 ^ Geometry.indexBits) :
    slotShift overflow geometry height = .ok (geometry.slotShift height) := by
  have levels : geometry.branchingBits * height < 2 ^ Geometry.indexBits :=
    Nat.lt_of_le_of_lt (Nat.le_add_left _ _) small
  rw [slotShift, inBits_of_lt levels]
  exact inBits_of_lt small

/-- A shift that is too great stops the computation, if not at the product then at the sum. -/
theorem slotShift_of_le (large : 2 ^ Geometry.indexBits ≤ geometry.slotShift height) :
    ∃ fault, slotShift .stops geometry height = .error fault := by
  rcases Nat.lt_or_ge (geometry.branchingBits * height) (2 ^ Geometry.indexBits) with fits | exceeds
  · refine ⟨.sumOverflow, ?_⟩
    rw [slotShift, inBits_of_lt fits]
    exact inBits_of_le large
  · refine ⟨.productOverflow, ?_⟩
    rw [slotShift, inBits_of_le exceeds]
    rfl

/-- A capacity whose shift is a number of the bits of an index is computed as it is. -/
theorem capacity_of_lt (small : geometry.slotShift (height + 1) < 2 ^ Geometry.indexBits) :
    capacity overflow geometry height = .ok (geometry.capacity height) := by
  have above := Nat.lt_of_le_of_lt (geometry.le_slotShift (height + 1)) small
  rw [capacity, inBits_of_lt above, ok_bind, slotShift_of_lt small]
  rfl

/-- There is no capacity at a height whose shift is too great. -/
theorem capacity_of_le (large : 2 ^ Geometry.indexBits ≤ geometry.slotShift (height + 1)) :
    ∃ fault, capacity .stops geometry height = .error fault := by
  rcases Nat.lt_or_ge (height + 1) (2 ^ Geometry.indexBits) with fits | exceeds
  · obtain ⟨fault, stopped⟩ := slotShift_of_le large
    refine ⟨fault, ?_⟩
    rw [capacity, inBits_of_lt fits, ok_bind, stopped]
    rfl
  · refine ⟨.sumOverflow, ?_⟩
    rw [capacity, inBits_of_le exceeds]
    rfl

/-- A digit whose shift is a number of the bits of an index is read off as it is. -/
theorem slot_of_lt (small : geometry.slotShift height < 2 ^ Geometry.indexBits) :
    slot overflow geometry index height = .ok (geometry.slot index height) := by
  rw [slot, slotShift_of_lt small]
  rfl

end Guarded

namespace Geometry

variable (geometry : Geometry)

/-- **Digits spell the index.** At a height whose shift is a number of the bits of an index, nothing
overflows. The capacity of a tree is then the number of elements that it holds when it is full, or
the greatest index if that is less. The slots that are read off an index below the capacity, from
the leaves up to the root, and the offset in the chunk are its digits, even if the digit at the root
reaches past the last bit of an index. The same holds of the greatest index where the capacity is
cut to it. At a height beyond, a program that checks its arithmetic stops at the capacity, so that
no index is below one. -/
theorem digits_exact (height : Nat) :
    (geometry.slotShift (height + 1) < 2 ^ indexBits → ∀ overflow : Overflow,
      Guarded.capacity overflow geometry height = .ok (geometry.capacity height) ∧
        geometry.capacity height =
          min (geometry.leafLength * geometry.branching ^ (height + 1)) (2 ^ indexBits - 1) ∧
        ∀ index,
          index < geometry.capacity height ∨
              index = 2 ^ indexBits - 1 ∧ geometry.capacity height = 2 ^ indexBits - 1 →
            index = geometry.leafOffset index +
                ∑ level ∈ Finset.range (height + 1),
                  geometry.slot index level * (geometry.leafLength * geometry.branching ^ level) ∧
              geometry.leafOffset index < geometry.leafLength ∧
              ∀ level ≤ height,
                Guarded.slot overflow geometry index level = .ok (geometry.slot index level) ∧
                  geometry.slot index level < geometry.branching) ∧
      (2 ^ indexBits ≤ geometry.slotShift (height + 1) →
        ∃ fault, Guarded.capacity .stops geometry height = .error fault) := by
  refine ⟨fun small overflow => ?_, Guarded.capacity_of_le⟩
  have capacity := geometry.capacity_eq_min height
  refine ⟨Guarded.capacity_of_lt small, geometry.weight_eq _ ▸ capacity, fun index inside => ?_⟩
  -- A capacity that is the greatest index was cut from a weight above it.
  have apart := geometry.weight_succ_ne_greatest height
  have bounded : index < 2 ^ indexBits := by
    have positive : 0 < 2 ^ indexBits := Nat.two_pow_pos _
    omega
  have below : index < geometry.weight (height + 1) := by omega
  refine ⟨?_, geometry.leafOffset_lt index, fun level under =>
    ⟨Guarded.slot_of_lt ?_, geometry.slot_lt index level⟩⟩
  · have expansion := geometry.sum_digits_eq_mod bounded (height + 1)
    rw [Nat.mod_eq_of_lt below] at expansion
    simp only [weight_eq] at expansion
    exact expansion.symm
  · exact Nat.lt_of_le_of_lt (geometry.slotShift_mono (Nat.le_succ_of_le under)) small

/-- The slot at the root is read off the last three bits of an index, and off two that it lacks. -/
theorem digits_exact_of_greatest :
    Guarded.capacity .wraps standard 11 = .ok (2 ^ indexBits - 1) ∧
      Guarded.slot .wraps standard (2 ^ indexBits - 1) 11 = .ok 7 ∧
      2 ^ indexBits - 1 = standard.leafOffset (2 ^ indexBits - 1) +
        ∑ level ∈ Finset.range 12, standard.slot (2 ^ indexBits - 1) level * (64 * 32 ^ level) := by
  obtain ⟨capacity, _, expansion⟩ := (standard.digits_exact 11).1 (by decide) .wraps
  obtain ⟨spelled, _, slots⟩ := expansion (2 ^ indexBits - 1) (.inr ⟨rfl, by decide⟩)
  exact ⟨capacity, (slots 11 (Nat.le_refl _)).1, spelled⟩

end Geometry
end GraphemeRope
