import GraphemeRope.Unicode.Cluster

/-! # Numerals

Numbers are written in decimal digits, to which a sign may be put in front. -/

namespace GraphemeRope
namespace Numeral

/-- The value of a decimal digit. -/
def digit? (c : Char) : Option Nat :=
  if '0'.toNat ≤ c.toNat && c.toNat ≤ '9'.toNat then some (c.toNat - '0'.toNat) else none

/-- The number that is read when digits follow a number already read. -/
def continueDigits? (read : Nat) : Text → Option Nat
  | [] => some read
  | c :: rest => (digit? c).bind fun digit => continueDigits? (10 * read + digit) rest

/-- The number of one or more digits. -/
def digits? : Text → Option Nat
  | [] => none
  | c :: rest => continueDigits? 0 (c :: rest)

/-- The number below a limit that a text writes, with an optional plus sign. -/
def below? (limit : Nat) (text : Text) : Option Nat :=
  let unsigned :=
    match text with
    | '+' :: rest => rest
    | _ => text
  (digits? unsigned).filter (· < limit)

/-- The position that a text writes, which is one of 64 bits. -/
def position? (text : Text) : Option Nat := below? (1 <<< 64) text

/-- A number in decimal digits. -/
def render (number : Nat) : Text := Nat.toDigits 10 number

end Numeral
end GraphemeRope
