import GraphemeRope.Geometry
import GraphemeRope.Script.Numeral
import Mathlib.Algebra.Group.Nat.Defs

/-! # Laws of numerals

A text is read as a position exactly if it is a numeral of one: decimal digits, at least one of
them, with at most a plus sign in front, whose value fits in the bits of an index
(`GraphemeRope.Numeral.position?_eq_some_iff`). A position written in decimal digits is a numeral of
itself.
-/

namespace GraphemeRope
namespace Numeral

/-- What a numeral of a number consists of. There may be zeros before the other digits. -/
structure Digits (digits : Text) (number : Nat) : Prop where
  filled : digits ≠ []
  decimal : digits.all Char.isDigit = true
  value : Nat.ofDigitChars 10 digits 0 = number

/-- The numerals of a position. -/
inductive Writes : Text → Nat → Prop where
  | unsigned {digits : Text} {position : Nat} (read : Digits digits position)
      (representable : position < 2 ^ Geometry.indexBits) : Writes digits position
  | signed {digits : Text} {position : Nat} (read : Digits digits position)
      (representable : position < 2 ^ Geometry.indexBits) : Writes ('+' :: digits) position

/-- A digit is read as its distance from zero. -/
theorem digit?_eq (c : Char) :
    digit? c = if c.isDigit = true then some (c.toNat - '0'.toNat) else none := by
  by_cases decimal : c.isDigit = true
  · have range := Char.isDigit_iff_toNat.mp decimal
    rw [digit?, if_pos decimal, decide_eq_true range.1, decide_eq_true range.2]
    rfl
  · have range : ¬(decide ('0'.toNat ≤ c.toNat) && decide (c.toNat ≤ '9'.toNat)) = true := by
      rw [Bool.and_eq_true, decide_eq_true_eq, decide_eq_true_eq]
      exact fun range => decimal (Char.isDigit_iff_toNat.mpr range)
    rw [digit?, if_neg decimal, if_neg range]

/-- Digits are read up to the end of a text, or not at all. -/
theorem continueDigits?_eq (read : Nat) (text : Text) :
    continueDigits? read text =
      if text.all Char.isDigit = true then some (Nat.ofDigitChars 10 text read) else none := by
  induction text generalizing read with
  | nil => rfl
  | cons c rest ih =>
      rw [continueDigits?, digit?_eq, List.all_cons]
      by_cases decimal : c.isDigit = true
      · rw [if_pos decimal, Option.bind_some, ih, decimal, Bool.true_and, Nat.ofDigitChars_cons]
      · rw [if_neg decimal, Bool.eq_false_iff.mpr decimal, Option.bind_none, Bool.false_and]
        rfl

/-- A number is read exactly from its digits. -/
theorem digits?_eq_some_iff {text : Text} {number : Nat} :
    digits? text = some number ↔ Digits text number := by
  cases text with
  | nil =>
      refine ⟨fun read => ?_, fun read => absurd rfl read.filled⟩
      rw [digits?] at read
      cases read
  | cons c rest =>
      rw [digits?, continueDigits?_eq]
      split
      · next decimal =>
          rw [Option.some_inj]
          exact ⟨fun value => ⟨List.cons_ne_nil _ _, decimal, value⟩, fun read => read.value⟩
      · next other =>
          simp only [reduceCtorEq, false_iff]
          exact fun read => other read.decimal

/-- The first character of a numeral without sign is a digit. -/
theorem Digits.not_signed {rest : Text} {number : Nat} : ¬Digits ('+' :: rest) number := by
  intro read
  have decimal := read.decimal
  rw [List.all_cons, Bool.and_eq_true] at decimal
  exact absurd decimal.1 (by decide)

/-- After a plus sign the digits of an index are read. -/
theorem position?_signed (digits : Text) :
    position? ('+' :: digits) = (digits? digits).filter (· < 1 <<< 64) := rfl

theorem position?_unsigned {text : Text} (unsigned : ∀ rest, text ≠ '+' :: rest) :
    position? text = (digits? text).filter (· < 1 <<< 64) := by
  unfold position? below?
  split
  · next rest => exact absurd rfl (unsigned rest)
  · rfl

/-- **Positions are read from their numerals**, and from nothing else. -/
theorem position?_eq_some_iff {text : Text} {position : Nat} :
    position? text = some position ↔ Writes text position := by
  have limit : 1 <<< 64 = 2 ^ Geometry.indexBits := rfl
  constructor
  · intro read
    by_cases signed : ∃ rest, text = '+' :: rest
    · obtain ⟨digits, rfl⟩ := signed
      rw [position?_signed, Option.filter_eq_some_iff, digits?_eq_some_iff,
        decide_eq_true_eq] at read
      exact .signed read.1 read.2
    · rw [position?_unsigned fun rest same => signed ⟨rest, same⟩, Option.filter_eq_some_iff,
        digits?_eq_some_iff, decide_eq_true_eq] at read
      exact .unsigned read.1 read.2
  · intro written
    cases written with
    | unsigned read representable =>
        rw [position?_unsigned, Option.filter_eq_some_iff, digits?_eq_some_iff, decide_eq_true_eq]
        · exact ⟨read, representable⟩
        · rintro rest rfl
          exact Digits.not_signed read
    | signed read representable =>
        rw [position?_signed, Option.filter_eq_some_iff, digits?_eq_some_iff, decide_eq_true_eq]
        exact ⟨read, representable⟩

/-- A text is not read as a position exactly if it writes none. -/
theorem position?_eq_none_iff {text : Text} :
    position? text = none ↔ ∀ position, ¬Writes text position := by
  simp only [Option.eq_none_iff_forall_ne_some, ne_eq, position?_eq_some_iff]

namespace Writes

variable {text : Text} {position : Nat}

theorem lt (written : Writes text position) : position < 2 ^ Geometry.indexBits := by
  cases written with
  | unsigned _ representable => exact representable
  | signed _ representable => exact representable

/-- What is neither a digit nor a sign is in no numeral. -/
theorem not_mem (written : Writes text position) {c : Char} (separates : c.isDigit = false)
    (unlike : c ≠ '+') : c ∉ text := by
  cases written with
  | unsigned read _ =>
      intro member
      rw [List.all_eq_true.mp read.decimal c member] at separates
      cases separates
  | signed read _ =>
      intro member
      rcases List.mem_cons.mp member with same | later
      · exact unlike same
      · rw [List.all_eq_true.mp read.decimal c later] at separates
        cases separates

end Writes

/-- A position in decimal digits is a numeral of itself. -/
theorem writes_render {position : Nat} (representable : position < 2 ^ Geometry.indexBits) :
    Writes (render position) position := by
  refine .unsigned ⟨Nat.toDigits_ne_nil, ?_, Nat.ofDigitChars_ten_toDigits⟩ representable
  rw [List.all_eq_true]
  exact fun c member => Nat.isDigit_of_mem_toDigits (by decide) (by decide) member

end Numeral
end GraphemeRope
