import GraphemeRope.Command.Run
import GraphemeRope.Proofs.Row
import Mathlib.Data.List.Forall2

/-! # Listings of units

Units are printed as numbers of four hexadecimal digits, eight in a line. Of each row of units there
is one such listing (`GraphemeRope.Units.listing_iff`), so the units can be read back from it. -/

namespace GraphemeRope
namespace Units

/-- The digits to the base sixteen, by their value. -/
def hexDigits : Text := "0123456789abcdef".toList

/-- The number that is read when digits follow a number already read. -/
def hexValue (read : Nat) (digits : Text) : Nat :=
  digits.foldl (fun value digit => 16 * value + hexDigits.idxOf digit) read

/-- How a unit is written in a listing: in four lower-case hexadecimal digits. -/
structure Hexadecimal (number : Text) (unit : UInt16) : Prop where
  width : number.length = 4
  digits : ∀ digit ∈ number, digit ∈ hexDigits
  value : hexValue 0 number = unit.toNat

/-- A listing of units, in lines of numbers. -/
structure Lists (units : List UInt16) (printed : Text) (lines : List (List Text)) : Prop where
  /-- In a line, one blank stands between numbers, and a line feed behind the last. -/
  printed_eq : printed = lines.flatMap fun numbers => [' '].intercalate numbers ++ ['\n']
  /-- All lines but the last have eight numbers. -/
  full : ∀ numbers ∈ lines.dropLast, numbers.length = 8
  /-- No line is empty or has more. -/
  proper : ∀ numbers ∈ lines, 0 < numbers.length ∧ numbers.length ≤ 8
  /-- Read in order, the numbers are the units. -/
  read : List.Forall₂ Hexadecimal lines.flatten units

/-- Whether a text is a listing of units. -/
def Listing (units : List UInt16) (printed : Text) : Prop := ∃ lines, Lists units printed lines

theorem hexValue_nil (read : Nat) : hexValue read [] = read := rfl

/-- A digit after a number is one more place of it. -/
theorem hexValue_cons (read : Nat) (digit : Char) (rest : Text) :
    hexValue read (digit :: rest) = hexValue (16 * read + hexDigits.idxOf digit) rest := rfl

/-- Digits after digits go on from their value. -/
theorem hexValue_append (read : Nat) (front rear : Text) :
    hexValue read (front ++ rear) = hexValue (hexValue read front) rear := List.foldl_append

/-- The digits to the base sixteen are at the places of their values. -/
theorem digitChar_spec :
    ∀ digit < 16, Nat.digitChar digit ∈ hexDigits ∧
      hexDigits.idxOf (Nat.digitChar digit) = digit := by
  decide

theorem idxOf_lt {digit : Char} (member : digit ∈ hexDigits) : hexDigits.idxOf digit < 16 :=
  List.idxOf_lt_length_iff.mpr member

/-- The digits of a number are digits and have its value. -/
theorem toDigits_spec (number : Nat) :
    (∀ digit ∈ Nat.toDigits 16 number, digit ∈ hexDigits) ∧
      hexValue 0 (Nat.toDigits 16 number) = number := by
  induction number using Nat.strongRecOn with
  | ind number ih =>
      rcases Nat.lt_or_ge number 16 with small | large
      · rw [Nat.toDigits_of_lt_base small, List.forall_mem_singleton]
        obtain ⟨member, value⟩ := digitChar_spec number small
        refine ⟨member, ?_⟩
        rw [hexValue_cons, hexValue_nil, value, Nat.mul_zero, Nat.zero_add]
      · obtain ⟨front, frontValue⟩ := ih (number / 16) (by omega)
        obtain ⟨member, value⟩ := digitChar_spec (number % 16) (Nat.mod_lt _ (by decide))
        rw [Nat.toDigits_of_base_le (by decide) large]
        constructor
        · rw [List.forall_mem_append, List.forall_mem_singleton]
          exact ⟨front, member⟩
        · rw [hexValue_append, frontValue, hexValue_cons, hexValue_nil, value]
          omega

/-- Zeros in front have no value. -/
theorem hexValue_zeros (count : Nat) : hexValue 0 (List.replicate count '0') = 0 := by
  induction count with
  | zero => rfl
  | succ count ih =>
      rw [List.replicate_succ]
      exact ih

/-- A unit is written in four digits. -/
theorem hexadecimal_hex (unit : UInt16) : Hexadecimal (hex unit) unit := by
  obtain ⟨digits, value⟩ := toDigits_spec unit.toNat
  have narrow : (Nat.toDigits 16 unit.toNat).length ≤ 4 :=
    (Nat.length_toDigits_le_iff (by decide) (by decide)).mpr unit.toNat_lt
  constructor
  · rw [hex, List.length_append, List.length_replicate]
    omega
  · rw [hex, List.forall_mem_append]
    refine ⟨fun digit member => ?_, digits⟩
    rw [List.eq_of_mem_replicate member]
    decide
  · rw [hex, hexValue_append, hexValue_zeros, value]

/-- Texts of as many digits that have one value are the same. -/
theorem hexValue_injective {first second : Text} (width : first.length = second.length)
    (digits : ∀ digit ∈ first, digit ∈ hexDigits) (others : ∀ digit ∈ second, digit ∈ hexDigits)
    {read other : Nat} (same : hexValue read first = hexValue other second) :
    read = other ∧ first = second := by
  induction first generalizing second read other with
  | nil =>
      rw [List.length_nil] at width
      rw [List.eq_nil_of_length_eq_zero width.symm] at same ⊢
      exact ⟨same, rfl⟩
  | cons digit first ih =>
      cases second with
      | nil => cases width
      | cons another second =>
          rw [List.forall_mem_cons] at digits others
          rw [hexValue_cons, hexValue_cons] at same
          obtain ⟨front, rfl⟩ := ih (Nat.succ.inj width) digits.2 others.2 same
          have small := idxOf_lt digits.1
          have little := idxOf_lt others.1
          have last : hexDigits.idxOf digit = hexDigits.idxOf another := by omega
          rw [(List.idxOf_inj digits.1).mp last]
          exact ⟨by omega, rfl⟩

/-- There is only one way to write a unit. -/
theorem Hexadecimal.eq_hex {number : Text} {unit : UInt16} (written : Hexadecimal number unit) :
    number = hex unit := by
  have shown := hexadecimal_hex unit
  exact (hexValue_injective (written.width.trans shown.width.symm) written.digits shown.digits
    (written.value.trans shown.value.symm)).2

/-- The lines that are printed of units are a listing of them. -/
theorem lists_unitLines (units : List UInt16) :
    Lists units (Command.unitLines units) ((groups 8 units).map fun line => line.map hex) where
  printed_eq := by
    rw [List.flatMap_map]
    rfl
  full := by
    rw [← List.map_dropLast, List.forall_mem_map]
    intro line member
    rw [List.length_map]
    exact length_of_mem_dropLast_groups (by decide) units line member
  proper := by
    rw [List.forall_mem_map]
    intro line member
    rw [List.length_map]
    exact length_of_mem_groups (by decide) member
  read := by
    rw [← List.map_flatten, flatten_groups, List.forall₂_map_left_iff, List.forall₂_same]
    exact fun unit _ => hexadecimal_hex unit

/-- The lines of a listing are told by its units. -/
theorem Lists.lines_eq {units : List UInt16} {printed : Text} {lines : List (List Text)}
    (lists : Lists units printed lines) : lines = groups 8 (units.map hex) := by
  have numbers : lines.flatten = units.map hex := by
    rw [← List.forall₂_eq_eq_eq, List.forall₂_map_right_iff]
    exact lists.read.imp fun _ _ written => written.eq_hex
  rw [← numbers, groups_flatten (by decide) lists.full lists.proper]

/-- **There is one listing of units**, which is printed of them. -/
theorem listing_iff (units : List UInt16) (printed : Text) :
    Listing units printed ↔ printed = Command.unitLines units := by
  have shown := lists_unitLines units
  constructor
  · rintro ⟨lines, lists⟩
    rw [lists.printed_eq, shown.printed_eq, lists.lines_eq, shown.lines_eq]
  · rintro rfl
    exact ⟨_, shown⟩

end Units
end GraphemeRope
