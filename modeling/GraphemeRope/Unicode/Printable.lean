import GraphemeRope.Unicode.CodePoint

/-! # Characters that cannot be shown as themselves -/

namespace GraphemeRope
namespace Printable

/-- Controls, invisible format characters, blanks other than the space, selectors and tags, and
code points that are private or never stand for a character. Code points that are only not assigned
yet are not listed. -/
def unprintables : List CodeRange :=
  [(0x0000, 0x001F), (0x007F, 0x00A0), (0x00AD, 0x00AD), (0x0600, 0x0605), (0x061C, 0x061C),
    (0x06DD, 0x06DD), (0x070F, 0x070F), (0x0890, 0x0891), (0x08E2, 0x08E2), (0x1680, 0x1680),
    (0x180B, 0x180F), (0x2000, 0x200F), (0x2028, 0x202F), (0x205F, 0x206F), (0x3000, 0x3000),
    (0xE000, 0xF8FF), (0xFE00, 0xFE0F), (0xFEFF, 0xFEFF), (0xFFF0, 0xFFFB), (0xFFFE, 0xFFFF),
    (0x110BD, 0x110BD), (0x110CD, 0x110CD), (0x13430, 0x1343F), (0x1BCA0, 0x1BCA3),
    (0x1D173, 0x1D17A), (0xE0000, 0x10FFFF)]

/-- Whether a character can be shown as itself, as tabulated. -/
def tabulated (c : Char) : Bool := !CodeRange.anyContains unprintables c

end Printable
end GraphemeRope
