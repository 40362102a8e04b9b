import GraphemeRope.Unicode.BreakClass
import GraphemeRope.Unicode.Printable

/-! # A table of characters

The tables hold the controls, the joiners, the emoji, the Hangul syllables and the combining
characters of the scripts named beside them. -/

namespace GraphemeRope
namespace BreakClass

/-- Format and layout controls, at both sides of which a cluster ends. -/
def controls : List CodeRange :=
  [(0x0000, 0x001F), (0x007F, 0x009F), (0x00AD, 0x00AD), (0x061C, 0x061C), (0x180E, 0x180E),
    (0x200B, 0x200B), (0x200E, 0x200F), (0x2028, 0x202E), (0x2060, 0x206F), (0xFEFF, 0xFEFF),
    (0xFFF0, 0xFFFB), (0x13430, 0x1343F), (0x1BCA0, 0x1BCA3), (0x1D173, 0x1D17A),
    (0xE0000, 0xE001F), (0xE0080, 0xE00FF), (0xE01F0, 0xE0FFF)]

/-- Characters that continue the cluster before them. -/
def extenders : List CodeRange :=
  -- Combining marks of Latin, Greek and Cyrillic, and points of Hebrew, Arabic and Syriac.
  [(0x0300, 0x036F), (0x0483, 0x0489), (0x0591, 0x05BD), (0x05BF, 0x05BF), (0x05C1, 0x05C2),
    (0x05C4, 0x05C5), (0x05C7, 0x05C7), (0x0610, 0x061A), (0x064B, 0x065F), (0x0670, 0x0670),
    (0x06D6, 0x06DC), (0x06DF, 0x06E4), (0x06E7, 0x06E8), (0x06EA, 0x06ED), (0x0711, 0x0711),
    (0x0730, 0x074A),
    -- Devanagari and Bengali.
    (0x0900, 0x0902), (0x093A, 0x093A), (0x093C, 0x093C), (0x0941, 0x0948), (0x094D, 0x094D),
    (0x0951, 0x0957), (0x0962, 0x0963), (0x0981, 0x0981), (0x09BC, 0x09BC), (0x09BE, 0x09BE),
    (0x09C1, 0x09C4), (0x09CD, 0x09CD), (0x09D7, 0x09D7), (0x09E2, 0x09E3), (0x09FE, 0x09FE),
    -- Gurmukhi, Gujarati and Oriya.
    (0x0A01, 0x0A02), (0x0A3C, 0x0A3C), (0x0A41, 0x0A42), (0x0A47, 0x0A48), (0x0A4B, 0x0A4D),
    (0x0A51, 0x0A51), (0x0A70, 0x0A71), (0x0A75, 0x0A75), (0x0A81, 0x0A82), (0x0ABC, 0x0ABC),
    (0x0AC1, 0x0AC5), (0x0AC7, 0x0AC8), (0x0ACD, 0x0ACD), (0x0AE2, 0x0AE3), (0x0AFA, 0x0AFF),
    (0x0B01, 0x0B01), (0x0B3C, 0x0B3C), (0x0B3E, 0x0B3F), (0x0B41, 0x0B44), (0x0B4D, 0x0B4D),
    (0x0B55, 0x0B57), (0x0B62, 0x0B63),
    -- Tamil, Telugu and Malayalam.
    (0x0B82, 0x0B82), (0x0BBE, 0x0BBE), (0x0BC0, 0x0BC0), (0x0BCD, 0x0BCD), (0x0BD7, 0x0BD7),
    (0x0C00, 0x0C00), (0x0C04, 0x0C04), (0x0C3C, 0x0C3C), (0x0C3E, 0x0C40), (0x0C46, 0x0C48),
    (0x0C4A, 0x0C4D), (0x0C55, 0x0C56), (0x0C62, 0x0C63), (0x0D00, 0x0D01), (0x0D3B, 0x0D3C),
    (0x0D3E, 0x0D3E), (0x0D41, 0x0D44), (0x0D4D, 0x0D4D), (0x0D57, 0x0D57), (0x0D62, 0x0D63),
    -- Thai and Lao.
    (0x0E31, 0x0E31), (0x0E34, 0x0E3A), (0x0E47, 0x0E4E), (0x0EB1, 0x0EB1), (0x0EB4, 0x0EBC),
    (0x0EC8, 0x0ECE),
    -- Marks of no single script, kana marks, variation selectors, emoji modifiers and tags.
    (0x1AB0, 0x1ACE), (0x1DC0, 0x1DFF), (0x200C, 0x200C), (0x20D0, 0x20F0), (0x302A, 0x302F),
    (0x3099, 0x309A), (0xFE00, 0xFE0F), (0xFE20, 0xFE2F), (0xFF9E, 0xFF9F), (0x1F3FB, 0x1F3FF),
    (0xE0020, 0xE007F), (0xE0100, 0xE01EF)]

/-- Vowel signs that take up room of their own and still continue the cluster before them. -/
def spacingMarks : List CodeRange :=
  [(0x0903, 0x0903), (0x093B, 0x093B), (0x093E, 0x0940), (0x0949, 0x094C), (0x094E, 0x094F),
    (0x0982, 0x0983), (0x09BF, 0x09C0), (0x09C7, 0x09C8), (0x09CB, 0x09CC), (0x0A03, 0x0A03),
    (0x0A3E, 0x0A40), (0x0A83, 0x0A83), (0x0ABE, 0x0AC0), (0x0AC9, 0x0AC9), (0x0ACB, 0x0ACC),
    (0x0B02, 0x0B03), (0x0B40, 0x0B40), (0x0B47, 0x0B48), (0x0B4B, 0x0B4C), (0x0BBF, 0x0BBF),
    (0x0BC1, 0x0BC2), (0x0BC6, 0x0BC8), (0x0BCA, 0x0BCC), (0x0C01, 0x0C03), (0x0C41, 0x0C44),
    (0x0D02, 0x0D03), (0x0D3F, 0x0D40), (0x0D46, 0x0D48), (0x0D4A, 0x0D4C), (0x0E33, 0x0E33),
    (0x0EB3, 0x0EB3)]

/-- Signs that join the character after them. -/
def prependeds : List CodeRange :=
  [(0x0600, 0x0605), (0x06DD, 0x06DD), (0x070F, 0x070F), (0x0890, 0x0891), (0x08E2, 0x08E2),
    (0x0D4E, 0x0D4E), (0x110BD, 0x110BD), (0x110CD, 0x110CD), (0x111C2, 0x111C3)]

/-- Emoji and the symbols that can take part in emoji sequences. -/
def pictographs : List CodeRange :=
  [(0x00A9, 0x00A9), (0x00AE, 0x00AE), (0x203C, 0x203C), (0x2049, 0x2049), (0x2122, 0x2122),
    (0x2139, 0x2139), (0x2194, 0x2199), (0x21A9, 0x21AA), (0x231A, 0x231B), (0x2328, 0x2328),
    (0x23CF, 0x23CF), (0x23E9, 0x23F3), (0x23F8, 0x23FA), (0x24C2, 0x24C2), (0x25AA, 0x25AB),
    (0x25B6, 0x25B6), (0x25C0, 0x25C0), (0x25FB, 0x25FE), (0x2600, 0x2604), (0x260E, 0x260E),
    (0x2611, 0x2611), (0x2614, 0x2615), (0x2618, 0x2618), (0x261D, 0x261D), (0x2620, 0x2620),
    (0x2622, 0x2623), (0x2626, 0x2626), (0x262A, 0x262A), (0x262E, 0x262F), (0x2638, 0x263A),
    (0x2640, 0x2640), (0x2642, 0x2642), (0x2648, 0x2653), (0x265F, 0x2660), (0x2663, 0x2663),
    (0x2665, 0x2666), (0x2668, 0x2668), (0x267B, 0x267B), (0x267E, 0x267F), (0x2692, 0x2697),
    (0x2699, 0x2699), (0x269B, 0x269C), (0x26A0, 0x26A1), (0x26A7, 0x26A7), (0x26AA, 0x26AB),
    (0x26B0, 0x26B1), (0x26BD, 0x26BE), (0x26C4, 0x26C5), (0x26C8, 0x26C8), (0x26CE, 0x26CF),
    (0x26D1, 0x26D1), (0x26D3, 0x26D4), (0x26E9, 0x26EA), (0x26F0, 0x26F5), (0x26F7, 0x26FA),
    (0x26FD, 0x26FD), (0x2702, 0x2702), (0x2705, 0x2705), (0x2708, 0x270D), (0x270F, 0x270F),
    (0x2712, 0x2712), (0x2714, 0x2714), (0x2716, 0x2716), (0x271D, 0x271D), (0x2721, 0x2721),
    (0x2728, 0x2728), (0x2733, 0x2734), (0x2744, 0x2744), (0x2747, 0x2747), (0x274C, 0x274C),
    (0x274E, 0x274E), (0x2753, 0x2755), (0x2757, 0x2757), (0x2763, 0x2764), (0x2795, 0x2797),
    (0x27A1, 0x27A1), (0x27B0, 0x27B0), (0x27BF, 0x27BF), (0x2934, 0x2935), (0x2B05, 0x2B07),
    (0x2B1B, 0x2B1C), (0x2B50, 0x2B50), (0x2B55, 0x2B55), (0x3030, 0x3030), (0x303D, 0x303D),
    (0x3297, 0x3297), (0x3299, 0x3299), (0x1F004, 0x1F004), (0x1F0CF, 0x1F0CF),
    (0x1F170, 0x1F171), (0x1F17E, 0x1F17F), (0x1F18E, 0x1F18E), (0x1F191, 0x1F19A),
    (0x1F201, 0x1F202), (0x1F21A, 0x1F21A), (0x1F22F, 0x1F22F), (0x1F232, 0x1F23A),
    (0x1F250, 0x1F251), (0x1F300, 0x1F3FA), (0x1F400, 0x1F53D), (0x1F546, 0x1F64F),
    (0x1F680, 0x1F6FF), (0x1F7E0, 0x1F7F0), (0x1F90C, 0x1F93A), (0x1F93C, 0x1F945),
    (0x1F947, 0x1F9FF), (0x1FA70, 0x1FAFF)]

/-- The class of a Hangul jamo or syllable. A syllable is open when it lacks a trailing consonant,
which happens once in every 28. -/
def ofHangul? (c : Char) : Option BreakClass :=
  let code := c.toNat
  if CodeRange.anyContains [(0x1100, 0x115F), (0xA960, 0xA97C)] c then some .leadingJamo
  else if CodeRange.anyContains [(0x1160, 0x11A7), (0xD7B0, 0xD7C6)] c then some .vowelJamo
  else if CodeRange.anyContains [(0x11A8, 0x11FF), (0xD7CB, 0xD7FB)] c then some .trailingJamo
  else if 0xAC00 ≤ code && code ≤ 0xD7A3 then
    some (if (code - 0xAC00) % 28 = 0 then .openSyllable else .closedSyllable)
  else none

/-- The class of a character outside ASCII. -/
def ofWide (c : Char) : BreakClass :=
  if c = '\u200D' then .zeroWidthJoiner
  else if CodeRange.anyContains [(0x1F1E6, 0x1F1FF)] c then .regionalIndicator
  else if CodeRange.anyContains controls c then .control
  else if CodeRange.anyContains extenders c then .extend
  else if CodeRange.anyContains spacingMarks c then .spacingMark
  else if CodeRange.anyContains prependeds c then .prepended
  else if CodeRange.anyContains pictographs c then .pictographic
  else (ofHangul? c).getD .other

/-- The class of a character, as tabulated. -/
def tabulated (c : Char) : BreakClass :=
  if c = '\r' then .carriageReturn
  else if c = '\n' then .lineFeed
  else if 0x20 ≤ c.toNat && c.toNat < 0x7F then .other
  else ofWide c

/-- No choice between classes that can be continued isolates. -/
theorem isolates_ite {condition : Prop} [Decidable condition] {first second : BreakClass}
    (left : first.isolates = false) (right : second.isolates = false) :
    (if condition then first else second).isolates = false := by
  split
  · exact left
  · exact right

/-- No part of a Hangul syllable isolates. -/
theorem isolates_ofHangul (c : Char) : ((ofHangul? c).getD .other).isolates = false := by
  unfold ofHangul?
  by_cases leading : CodeRange.anyContains [(0x1100, 0x115F), (0xA960, 0xA97C)] c
  · rw [if_pos leading]
    rfl
  · rw [if_neg leading]
    by_cases vowel : CodeRange.anyContains [(0x1160, 0x11A7), (0xD7B0, 0xD7C6)] c
    · rw [if_pos vowel]
      rfl
    · rw [if_neg vowel]
      by_cases trailing : CodeRange.anyContains [(0x11A8, 0x11FF), (0xD7CB, 0xD7FB)] c
      · rw [if_pos trailing]
        rfl
      · rw [if_neg trailing]
        split
        · rw [Option.getD_some]
          exact isolates_ite rfl rfl
        · rfl

/-- Among wide characters only the controls isolate. -/
theorem isolates_ofWide {c : Char} (notControl : CodeRange.anyContains controls c = false) :
    (ofWide c).isolates = false := by
  rw [ofWide, notControl, if_neg Bool.false_ne_true]
  exact isolates_ite rfl (isolates_ite rfl (isolates_ite rfl (isolates_ite rfl
    (isolates_ite rfl (isolates_ite rfl (isolates_ofHangul c))))))

end BreakClass

namespace ConjunctRole

/-- The consonants of Devanagari, Bengali, Gujarati, Oriya, Telugu and Malayalam. -/
def consonants : List CodeRange :=
  [(0x0915, 0x0939), (0x0958, 0x095F), (0x0978, 0x097F), (0x0995, 0x09A8), (0x09AA, 0x09B0),
    (0x09B2, 0x09B2), (0x09B6, 0x09B9), (0x09DC, 0x09DD), (0x09DF, 0x09DF), (0x09F0, 0x09F1),
    (0x0A95, 0x0AA8), (0x0AAA, 0x0AB0), (0x0AB2, 0x0AB3), (0x0AB5, 0x0AB9), (0x0AF9, 0x0AF9),
    (0x0B15, 0x0B28), (0x0B2A, 0x0B30), (0x0B32, 0x0B33), (0x0B35, 0x0B39), (0x0B5C, 0x0B5D),
    (0x0B5F, 0x0B5F), (0x0B71, 0x0B71), (0x0C15, 0x0C28), (0x0C2A, 0x0C39), (0x0C58, 0x0C5A),
    (0x0D15, 0x0D3A)]

/-- The viramas of the same scripts. -/
def linkers : List CodeRange :=
  [(0x094D, 0x094D), (0x09CD, 0x09CD), (0x0ACD, 0x0ACD), (0x0B4D, 0x0B4D), (0x0C4D, 0x0C4D),
    (0x0D4D, 0x0D4D)]

/-- The role of a character, as tabulated. What continues a cluster may stand inside a conjunct, the
zero-width non-joiner excepted. -/
def tabulated (c : Char) : ConjunctRole :=
  if c.toNat < 0x300 then .outsider
  else if CodeRange.anyContains consonants c then .consonant
  else if CodeRange.anyContains linkers c then .linker
  else if c = '\u200C' then .outsider
  else
    match BreakClass.tabulated c with
    | .extend | .zeroWidthJoiner => .extend
    | _ => .outsider

/-- Outside ASCII the class is that of a wide character. -/
theorem breakClass_of_wide {c : Char} (wide : ¬c.toNat < 0x300) :
    BreakClass.tabulated c = BreakClass.ofWide c := by
  have notReturn : c ≠ '\r' := by
    rintro rfl
    exact wide (by decide)
  have notFeed : c ≠ '\n' := by
    rintro rfl
    exact wide (by decide)
  have notAscii : ¬c.toNat < 0x7F := by omega
  simp only [BreakClass.tabulated, notReturn, notFeed, notAscii, ↓reduceIte, decide_false,
    Bool.and_false, Bool.false_eq_true]

/-- A linker continues the cluster before it. -/
theorem breakClass_of_linker {c : Char} (linker : CodeRange.anyContains linkers c = true)
    (wide : ¬c.toNat < 0x300) :
    BreakClass.tabulated c = .extend ∨ BreakClass.tabulated c = .zeroWidthJoiner := by
  have notRegional : CodeRange.anyContains [(0x1F1E6, 0x1F1FF)] c = false :=
    CodeRange.not_anyContains_of_apart (by decide +kernel) linker
  have notControl : CodeRange.anyContains BreakClass.controls c = false :=
    CodeRange.not_anyContains_of_apart (by decide +kernel) linker
  have extending : CodeRange.anyContains BreakClass.extenders c = true :=
    CodeRange.anyContains_of_within (by decide +kernel) linker
  rw [breakClass_of_wide wide, BreakClass.ofWide]
  by_cases joiner : c = '\u200D'
  · exact .inr (if_pos joiner)
  · left
    simp only [joiner, notRegional, notControl, extending, ↓reduceIte, Bool.false_eq_true]

/-- What stands inside a conjunct, as tabulated, continues the cluster before it. -/
theorem continues_of_tabulated (c : Char)
    (linking : tabulated c = .linker ∨ tabulated c = .extend) :
    BreakClass.tabulated c = .extend ∨ BreakClass.tabulated c = .zeroWidthJoiner := by
  unfold tabulated at linking
  split at linking
  · simp only [reduceCtorEq, or_self] at linking
  · next wide =>
    split at linking
    · simp only [reduceCtorEq, or_self] at linking
    · split at linking
      · next linker => exact breakClass_of_linker linker wide
      · split at linking
        · simp only [reduceCtorEq, or_self] at linking
        · split at linking
          · next extend => exact .inl extend
          · next joiner => exact .inr joiner
          · simp only [reduceCtorEq, or_self] at linking

/-- A character is tabulated as a consonant only by the table of them. -/
theorem consonant_of_tabulated {c : Char} (consonant : tabulated c = .consonant) :
    ¬c.toNat < 0x300 ∧ CodeRange.anyContains consonants c = true := by
  unfold tabulated at consonant
  split at consonant
  · simp only [reduceCtorEq] at consonant
  · next wide =>
    refine ⟨wide, ?_⟩
    by_cases inside : CodeRange.anyContains consonants c = true
    · exact inside
    rw [if_neg inside] at consonant
    split at consonant
    · simp only [reduceCtorEq] at consonant
    · split at consonant
      · simp only [reduceCtorEq] at consonant
      · split at consonant <;> simp only [reduceCtorEq] at consonant

/-- No tabulated consonant isolates. -/
theorem not_isolates_of_tabulated (c : Char) (consonant : tabulated c = .consonant) :
    (BreakClass.tabulated c).isolates = false := by
  obtain ⟨wide, contained⟩ := consonant_of_tabulated consonant
  rw [breakClass_of_wide wide]
  exact BreakClass.isolates_ofWide
    (CodeRange.not_anyContains_of_apart (by decide +kernel) contained)

end ConjunctRole

/-- Whether a character would attach itself to a mark before it, as tabulated. Emoji modifiers show
on their own. -/
def Printable.attaching (c : Char) : Bool :=
  BreakClass.tabulated c = .extend && !CodeRange.anyContains [(0x1F3FB, 0x1F3FF)] c

/-- The tabulated properties, which hold for the scripts named in the tables. -/
instance : CharacterTable where
  breakClass := BreakClass.tabulated
  conjunctRole := ConjunctRole.tabulated
  isPrintable := Printable.tabulated
  attaches := Printable.attaching
  continues_of_linker := ConjunctRole.continues_of_tabulated
  not_isolates_of_consonant := ConjunctRole.not_isolates_of_tabulated

end GraphemeRope
