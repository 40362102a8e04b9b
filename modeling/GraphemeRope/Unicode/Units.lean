import GraphemeRope.Unicode.Cluster

/-! # UTF-16 units

A character below the supplementary planes is one unit, any other a pair of surrogates. -/

namespace GraphemeRope
namespace Units

/-- The units of a character. -/
def encodeChar (c : Char) : List UInt16 :=
  if c.toNat < 0x10000 then [UInt16.ofNat c.toNat]
  else
    let offset := c.toNat - 0x10000
    [UInt16.ofNat (0xD800 + offset / 0x400), UInt16.ofNat (0xDC00 + offset % 0x400)]

/-- The units of a text. -/
def encode (text : Text) : List UInt16 := text.flatMap encodeChar

/-- Whether a unit is the first of a surrogate pair. -/
def isHigh (unit : UInt16) : Bool := 0xD800 ≤ unit.toNat && unit.toNat < 0xDC00

/-- Whether a unit is the second of a surrogate pair. -/
def isLow (unit : UInt16) : Bool := 0xDC00 ≤ unit.toNat && unit.toNat < 0xE000

/-- What stands for a surrogate without its partner. -/
def replacement : Char := '\uFFFD'

/-- The character of a surrogate pair. -/
def pairChar (high low : UInt16) : Char :=
  Char.ofNat (0x10000 + (high.toNat - 0xD800) * 0x400 + (low.toNat - 0xDC00))

/-- The character of a unit that is not part of a pair. -/
def loneChar (unit : UInt16) : Char :=
  if isHigh unit || isLow unit then replacement else Char.ofNat unit.toNat

/-- The text of a list of units, each unpaired surrogate replaced. -/
def decode : List UInt16 → Text
  | [] => []
  | [unit] => [loneChar unit]
  | unit :: next :: rest =>
      if isHigh unit && isLow next then pairChar unit next :: decode rest
      else loneChar unit :: decode (next :: rest)

/-- A unit as four lower-case hexadecimal digits. -/
def hex (unit : UInt16) : Text :=
  let digits := Nat.toDigits 16 unit.toNat
  List.replicate (4 - digits.length) '0' ++ digits

/-- A list of units as it is shown to a reader: quoted hexadecimal numbers between brackets. -/
def describe (units : List UInt16) : Text :=
  let entries := units.map fun unit => '"' :: '0' :: 'x' :: hex unit ++ ['"']
  '[' :: (entries.intersperse [',', ' ']).flatten ++ [']']

end Units
end GraphemeRope
