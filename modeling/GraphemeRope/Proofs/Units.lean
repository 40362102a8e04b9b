import GraphemeRope.Unicode.Units
import Mathlib.Logic.Function.Basic

/-! # Reading UTF-16 back

No half of a surrogate pair is the unit of a character, so the units of a text tell where each
character ends (`GraphemeRope.Units.decode_encode`). -/

namespace GraphemeRope
namespace Units

theorem encode_append (front rear : Text) : encode (front ++ rear) = encode front ++ encode rear :=
  List.flatMap_append

theorem encode_cons (c : Char) (text : Text) : encode (c :: text) = encodeChar c ++ encode text :=
  List.flatMap_cons

theorem encode_singleton (c : Char) : encode [c] = encodeChar c := List.append_nil _

/-- The units of joined pieces are the joined units of the pieces. -/
theorem encode_flatMap {β : Type} (pieces : List β) (text : β → Text) :
    encode (pieces.flatMap text) = pieces.flatMap fun piece => encode (text piece) :=
  List.flatMap_assoc

/-- No character is a surrogate. -/
theorem toNat_not_surrogate (c : Char) : c.toNat < 0xD800 ∨ 0xDFFF < c.toNat := by
  rcases c.valid with below | ⟨above, _⟩
  · exact .inl below
  · exact .inr above

theorem toNat_lt (c : Char) : c.toNat < 0x110000 := by
  rcases c.valid with below | ⟨_, inside⟩
  · exact Nat.lt_trans below (by decide)
  · exact inside

/-- The units of a character are one unit that is no surrogate, or a pair of surrogates. -/
theorem encodeChar_cases (c : Char) :
    (∃ unit, encodeChar c = [unit] ∧ isHigh unit = false ∧ isLow unit = false ∧
        loneChar unit = c) ∨
      ∃ high low, encodeChar c = [high, low] ∧ isHigh high = true ∧ isLow low = true ∧
        pairChar high low = c := by
  have valid := toNat_not_surrogate c
  have bounded := toNat_lt c
  unfold encodeChar
  by_cases small : c.toNat < 0x10000
  · have kept : (UInt16.ofNat c.toNat).toNat = c.toNat := by
      rw [UInt16.toNat_ofNat', Nat.mod_eq_of_lt small]
    have high : isHigh (UInt16.ofNat c.toNat) = false := by
      rw [isHigh, kept, Bool.and_eq_false_iff, decide_eq_false_iff_not, decide_eq_false_iff_not]
      omega
    have low : isLow (UInt16.ofNat c.toNat) = false := by
      rw [isLow, kept, Bool.and_eq_false_iff, decide_eq_false_iff_not, decide_eq_false_iff_not]
      omega
    refine .inl ⟨_, if_pos small, high, low, ?_⟩
    rw [loneChar, high, low, Bool.or_self, if_neg Bool.false_ne_true, kept, Char.ofNat_toNat]
  · have first : (UInt16.ofNat (0xD800 + (c.toNat - 0x10000) / 0x400)).toNat =
        0xD800 + (c.toNat - 0x10000) / 0x400 := by
      rw [UInt16.toNat_ofNat', Nat.mod_eq_of_lt (by omega)]
    have second : (UInt16.ofNat (0xDC00 + (c.toNat - 0x10000) % 0x400)).toNat =
        0xDC00 + (c.toNat - 0x10000) % 0x400 := by
      rw [UInt16.toNat_ofNat', Nat.mod_eq_of_lt (by omega)]
    have high : isHigh (UInt16.ofNat (0xD800 + (c.toNat - 0x10000) / 0x400)) = true := by
      rw [isHigh, first, Bool.and_eq_true, decide_eq_true_eq, decide_eq_true_eq]
      omega
    have low : isLow (UInt16.ofNat (0xDC00 + (c.toNat - 0x10000) % 0x400)) = true := by
      rw [isLow, second, Bool.and_eq_true, decide_eq_true_eq, decide_eq_true_eq]
      omega
    -- Each half of the pair carries ten of the twenty bits above the first plane.
    have whole : 0x10000 + (0xD800 + (c.toNat - 0x10000) / 0x400 - 0xD800) * 0x400 +
        (0xDC00 + (c.toNat - 0x10000) % 0x400 - 0xDC00) = c.toNat := by
      omega
    refine .inr ⟨_, _, if_neg small, high, low, ?_⟩
    rw [pairChar, first, second, whole, Char.ofNat_toNat]

/-- A character has a unit. -/
theorem length_encodeChar_pos (c : Char) : 0 < (encodeChar c).length := by
  rcases encodeChar_cases c with ⟨_, units, _⟩ | ⟨_, _, units, _⟩
  · rw [units]
    exact Nat.one_pos
  · rw [units]
    exact Nat.two_pos

/-- A surrogate is the first of a pair or the second, but not both. -/
theorem isHigh_of_isLow {unit : UInt16} (low : isLow unit = true) : isHigh unit = false := by
  rw [isLow, Bool.and_eq_true, decide_eq_true_eq, decide_eq_true_eq] at low
  rw [isHigh, Bool.and_eq_false_iff, decide_eq_false_iff_not, decide_eq_false_iff_not]
  omega

/-- No text ends with the first half of a pair. -/
theorem isHigh_getLast?_encode (text : Text) : (encode text).getLast?.any isHigh = false := by
  rcases List.eq_nil_or_concat text with rfl | ⟨front, c, rfl⟩
  · rfl
  · rw [List.concat_eq_append, encode_append, encode_singleton]
    rcases encodeChar_cases c with ⟨unit, units, single, _⟩ | ⟨high, low, units, _, second, _⟩
    · rw [units, List.getLast?_concat, Option.any_some, single]
    · rw [units, List.getLast?_append, List.getLast?_cons_cons, List.getLast?_singleton,
        Option.some_or, Option.any_some, isHigh_of_isLow second]

/-- A unit that is not the first of a pair stands alone. -/
theorem decode_cons_of_not_isHigh {unit : UInt16} (single : isHigh unit = false)
    (rest : List UInt16) : decode (unit :: rest) = loneChar unit :: decode rest := by
  cases rest with
  | nil => rfl
  | cons next rest => rw [decode, single, Bool.false_and, if_neg Bool.false_ne_true]

/-- The units of a character are read as that character, whatever follows. -/
theorem decode_encodeChar_append (c : Char) (rest : List UInt16) :
    decode (encodeChar c ++ rest) = c :: decode rest := by
  rcases encodeChar_cases c with ⟨unit, units, single, _, same⟩ |
    ⟨high, low, units, first, second, same⟩
  · rw [units, List.singleton_append, decode_cons_of_not_isHigh single, same]
  · rw [units, List.cons_append, List.singleton_append, decode, first, second, Bool.and_self,
      if_pos rfl, same]

/-- The units of a text are read as that text, whatever follows. -/
theorem decode_encode_append (text : Text) (rest : List UInt16) :
    decode (encode text ++ rest) = text ++ decode rest := by
  induction text with
  | nil => rfl
  | cons c text ih =>
      rw [encode_cons, List.append_assoc, decode_encodeChar_append, ih, List.cons_append]

/-- **Encoding loses nothing.** -/
theorem decode_encode (text : Text) : decode (encode text) = text := by
  have read := decode_encode_append text []
  rw [List.append_nil, decode, List.append_nil] at read
  exact read

/-- Texts with the same units are the same. -/
theorem encode_injective : Function.Injective encode :=
  Function.LeftInverse.injective decode_encode

end Units
end GraphemeRope
