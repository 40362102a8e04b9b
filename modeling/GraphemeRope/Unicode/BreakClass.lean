/-! # Grapheme break classes

The classes by which a text is cut into extended grapheme clusters, and the roles that characters
play in the conjuncts of Brahmic scripts. Which character has which class is left to a table, and so
is which characters can be shown as themselves. -/

namespace GraphemeRope

/-- The part a character plays when a text is cut into clusters. -/
inductive BreakClass where
  | other
  | carriageReturn
  | lineFeed
  | control
  | extend
  | zeroWidthJoiner
  | regionalIndicator
  | prepended
  | spacingMark
  | leadingJamo
  | vowelJamo
  | trailingJamo
  | openSyllable
  | closedSyllable
  | pictographic
  deriving DecidableEq, Repr

namespace BreakClass

/-- Whether a cluster always ends before and after a character of the class, a carriage return
before a line feed excepted. -/
def isolates : BreakClass → Bool
  | .carriageReturn | .lineFeed | .control => true
  | _ => false

/-- Whether the parts of a Hangul syllable hold together. -/
def hangulJoins : BreakClass → BreakClass → Bool
  | .leadingJamo, .leadingJamo => true
  | .leadingJamo, .vowelJamo => true
  | .leadingJamo, .openSyllable => true
  | .leadingJamo, .closedSyllable => true
  | .openSyllable, .vowelJamo => true
  | .openSyllable, .trailingJamo => true
  | .vowelJamo, .vowelJamo => true
  | .vowelJamo, .trailingJamo => true
  | .closedSyllable, .trailingJamo => true
  | .trailingJamo, .trailingJamo => true
  | _, _ => false

end BreakClass

/-- The part a character plays in a conjunct, two consonants held together by a linker. -/
inductive ConjunctRole where
  | outsider
  | consonant
  | linker
  | extend
  deriving DecidableEq, Repr

/-- The properties of characters by which a text is cut into clusters, and by which it is shown.
Versions of the character database differ in them, but what stands inside a conjunct always
continues a cluster, and a consonant can always be continued. -/
class CharacterTable where
  /-- The class of a character. -/
  breakClass : Char → BreakClass
  /-- The role of a character in conjuncts. -/
  conjunctRole : Char → ConjunctRole
  /-- Whether a character can be shown as itself. Nothing is assumed of it: versions disagree on
  which code points stand for a character, and on which characters that cannot be seen are printed
  nevertheless. -/
  isPrintable : Char → Bool
  /-- Whether a character would attach itself to a mark that is shown before it. -/
  attaches : Char → Bool
  continues_of_linker : ∀ c, conjunctRole c = .linker ∨ conjunctRole c = .extend →
    breakClass c = .extend ∨ breakClass c = .zeroWidthJoiner
  not_isolates_of_consonant : ∀ c, conjunctRole c = .consonant → (breakClass c).isolates = false

variable [CharacterTable]

/-- The class of a character. -/
def BreakClass.ofChar (c : Char) : BreakClass := CharacterTable.breakClass c

/-- The role of a character in conjuncts. -/
def ConjunctRole.ofChar (c : Char) : ConjunctRole := CharacterTable.conjunctRole c

end GraphemeRope
