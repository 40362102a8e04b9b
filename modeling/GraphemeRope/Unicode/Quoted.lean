import GraphemeRope.Unicode.Cluster

/-! # Texts shown with escapes

A text is shown on one line: some characters after a backslash, others by the hexadecimal number of
their code point, which the table of characters tells. Two notations differ in the quotes they
escape and in how they treat a combining character, which would attach itself to whatever is printed
before it. -/

namespace GraphemeRope
namespace Quoted

/-- The letter that stands after a backslash for a character. -/
def shortEscape? (quotes : List Char) (c : Char) : Option Char :=
  if c = '\x00' then some '0'
  else if c = '\t' then some 't'
  else if c = '\r' then some 'r'
  else if c = '\n' then some 'n'
  else if c = '\\' || quotes.contains c then some c
  else none

/-- The escape by code point. -/
def codeEscape (c : Char) : Text :=
  ['\\', 'u', '\x7b'] ++ Nat.toDigits 16 c.toNat ++ ['\x7d']

variable [CharacterTable]

/-- A character as it is shown. `exposed` tells that nothing of the text stands before it. -/
def showChar (quotes : List Char) (exposed : Bool) (c : Char) : Text :=
  match shortEscape? quotes c with
  | some letter => ['\\', letter]
  | none =>
      if (exposed && CharacterTable.attaches c) || !CharacterTable.isPrintable c then codeEscape c
      else [c]

/-- A text without delimiters: both quotes are escaped, and a combining character only at the start
of the text. -/
def inlined : Text → Text
  | [] => []
  | c :: rest =>
      showChar ['\'', '"'] true c ++ rest.flatMap (showChar ['\'', '"'] false)

/-- A text between double quotes, in which every combining character is escaped. -/
def delimited (text : Text) : Text :=
  '"' :: text.flatMap (showChar ['"'] true) ++ ['"']

end Quoted
end GraphemeRope
