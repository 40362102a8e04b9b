import GraphemeRope.Proofs.UnitView.Cut

/-! # Decoding views

A view may begin or end between the halves of a surrogate pair. What it then decodes to has a
replacement character at that end; between its ends it has the characters of the rope that lie in
the view with all their units (`GraphemeRope.Rope.decode_range`). -/

namespace GraphemeRope
namespace Units

/-- Whether a position lies between the halves of a surrogate pair. -/
def splitsPair (units : List UInt16) (position : Nat) : Bool :=
  0 < position && units[position - 1]?.any isHigh && units[position]?.any isLow

/-- The characters of a text that lie with all their units between two positions, if the units of
the text begin at `offset`. -/
def charsBetween (start stop : Nat) : Nat → Text → Text
  | _, [] => []
  | offset, c :: rest =>
      let next := offset + (encodeChar c).length
      if start ≤ offset ∧ next ≤ stop then c :: charsBetween start stop next rest
      else charsBetween start stop next rest

/-- A cut of a text at a position of its units, either between two characters or between the halves
of a pair, whose character is then `broken`. -/
structure CutAt (text : Text) (position : Nat) (front : Text) (broken : Option Char)
    (rear : Text) : Prop where
  text_eq : text = front ++ broken.toList ++ rear
  position_eq : position = (encode front).length + broken.toList.length
  pair : ∀ c ∈ broken, ∃ high low, encodeChar c = [high, low] ∧ isHigh high = true ∧
    isLow low = true

/-- A text can be cut at each position of its units. -/
theorem exists_cutAt (text : Text) {position : Nat} (inside : position ≤ (encode text).length) :
    ∃ front broken rear, CutAt text position front broken rear := by
  induction text generalizing position with
  | nil => exact ⟨[], none, [], rfl, Nat.le_zero.mp inside, fun _ => nofun⟩
  | cons c text ih =>
      rw [encode_cons, List.length_append] at inside
      rcases Nat.eq_zero_or_pos position with rfl | later
      · exact ⟨[], none, c :: text, rfl, rfl, fun _ => nofun⟩
      -- Only a pair has a position within it.
      rcases Nat.lt_or_ge position (encodeChar c).length with within | after
      · rcases encodeChar_cases c with ⟨unit, units, _⟩ | ⟨high, low, units, first, second, _⟩
        · rw [units, List.length_singleton] at within
          omega
        · rw [units] at within
          refine ⟨[], some c, text, rfl, Nat.le_antisymm (Nat.le_of_lt_succ within) later, ?_⟩
          rintro _ ⟨⟩
          exact ⟨high, low, units, first, second⟩
      · obtain ⟨front, broken, rear, cut⟩ := ih (Nat.sub_le_iff_le_add'.mpr inside)
        refine ⟨c :: front, broken, rear, congrArg (c :: ·) cut.text_eq, ?_, cut.pair⟩
        rw [encode_cons, List.length_append, Nat.add_assoc, ← cut.position_eq,
          Nat.add_sub_cancel' after]

namespace CutAt

variable {text front rear : Text} {position : Nat} {broken : Option Char}
  (cut : CutAt text position front broken rear)
include cut

/-- A cut of a text is one of any longer text. -/
theorem append (more : Text) : CutAt (text ++ more) position front broken (rear ++ more) where
  text_eq := by rw [cut.text_eq, List.append_assoc]
  position_eq := cut.position_eq
  pair := cut.pair

/-- A broken character has two units. -/
theorem length_broken : (encode broken.toList).length = 2 * broken.toList.length := by
  cases broken with
  | none => rfl
  | some c =>
      obtain ⟨high, low, units, _⟩ := cut.pair c rfl
      rw [Option.toList_some, encode_singleton, units]
      rfl

/-- Before a cut are the units of the front, and the first of a broken character. -/
theorem take_eq : (encode text).take position = encode front ++ (encode broken.toList).take 1 := by
  have width := cut.length_broken
  rw [cut.text_eq, cut.position_eq, encode_append, encode_append, List.append_assoc,
    List.take_length_add_append, List.take_append_of_le_length (by omega)]
  cases broken with
  | none => rfl
  | some c => rfl

/-- Behind a cut are the second unit of a broken character, and the units of the rear. -/
theorem drop_eq : (encode text).drop position = (encode broken.toList).drop 1 ++ encode rear := by
  have width := cut.length_broken
  rw [cut.text_eq, cut.position_eq, encode_append, encode_append, List.append_assoc,
    List.drop_length_add_append, List.drop_append_of_le_length (by omega)]
  cases broken with
  | none => rfl
  | some c => rfl

/-- A cut breaks a character if and only if it is made between the halves of a pair. -/
theorem splitsPair_eq : splitsPair (encode text) position = broken.isSome := by
  rw [cut.text_eq, cut.position_eq, encode_append, encode_append, List.append_assoc]
  cases broken with
  | none =>
      change splitsPair (encode front ++ encode rear) (encode front).length = false
      rcases Nat.eq_zero_or_pos (encode front).length with zero | filled
      · rw [zero]
        rfl
      · have last := isHigh_getLast?_encode front
        rw [List.getLast?_eq_getElem?] at last
        rw [splitsPair, List.getElem?_append_left (Nat.sub_one_lt_of_lt filled), last,
          Bool.and_false, Bool.false_and]
  | some c =>
      obtain ⟨high, low, units, first, second⟩ := cut.pair c rfl
      rw [Option.toList_some, encode_singleton, units]
      change splitsPair (encode front ++ high :: low :: encode rear) ((encode front).length + 1) =
        true
      rw [splitsPair, Nat.add_sub_cancel, List.getElem?_append_right (Nat.le_refl _), Nat.sub_self,
        List.getElem?_append_right (Nat.le_add_right _ 1), Nat.add_sub_cancel_left,
        List.getElem?_cons_zero, List.getElem?_cons_succ, List.getElem?_cons_zero, Option.any_some,
        Option.any_some, first, second, decide_eq_true (Nat.succ_pos _)]
      rfl

/-- The second half of a broken pair is replaced. -/
theorem decode_drop (rest : List UInt16) :
    decode ((encode broken.toList).drop 1 ++ rest) =
      (if broken.isSome then [replacement] else []) ++ decode rest := by
  cases broken with
  | none => rfl
  | some c =>
      obtain ⟨high, low, units, _, second⟩ := cut.pair c rfl
      rw [Option.toList_some, encode_singleton, units, List.drop_succ_cons, List.drop_zero,
        List.singleton_append, decode_cons_of_not_isHigh (isHigh_of_isLow second), loneChar, second,
        Bool.or_true, if_pos rfl]
      rfl

/-- The first half of a broken pair is replaced. -/
theorem decode_take :
    decode ((encode broken.toList).take 1) = if broken.isSome then [replacement] else [] := by
  cases broken with
  | none => rfl
  | some c =>
      obtain ⟨high, low, units, first, _⟩ := cut.pair c rfl
      rw [Option.toList_some, encode_singleton, units, List.take_succ_cons, List.take_zero, decode,
        loneChar, first, Bool.true_or, if_pos rfl]
      rfl

end CutAt

section Between

variable {start stop offset : Nat} {text : Text}

/-- The characters of joined texts between two positions are those of the one and of the other. -/
theorem charsBetween_append (start stop offset : Nat) (front rear : Text) :
    charsBetween start stop offset (front ++ rear) =
      charsBetween start stop offset front ++
        charsBetween start stop (offset + (encode front).length) rear := by
  induction front generalizing offset with
  | nil => rfl
  | cons c front ih =>
      rw [List.cons_append, charsBetween, charsBetween, ih, encode_cons, List.length_append,
        ← Nat.add_assoc]
      split
      · rfl
      · rfl

/-- Before a range there are none of its characters. -/
theorem charsBetween_of_before (before : offset + (encode text).length ≤ start) :
    charsBetween start stop offset text = [] := by
  induction text generalizing offset with
  | nil => rfl
  | cons c text ih =>
      have positive := length_encodeChar_pos c
      rw [encode_cons, List.length_append, ← Nat.add_assoc] at before
      rw [charsBetween, if_neg (by omega), ih before]

/-- Behind a range there are none of its characters. -/
theorem charsBetween_of_after (after : stop ≤ offset) :
    charsBetween start stop offset text = [] := by
  induction text generalizing offset with
  | nil => rfl
  | cons c text ih =>
      have positive := length_encodeChar_pos c
      rw [charsBetween, if_neg (by omega), ih (by omega)]

/-- Within a range all characters are its own. -/
theorem charsBetween_of_within (after : start ≤ offset)
    (before : offset + (encode text).length ≤ stop) :
    charsBetween start stop offset text = text := by
  induction text generalizing offset with
  | nil => rfl
  | cons c text ih =>
      rw [encode_cons, List.length_append, ← Nat.add_assoc] at before
      rw [charsBetween, if_pos ⟨after, by omega⟩, ih (by omega) before]

/-- A broken character lies in no range that begins or ends within it. -/
theorem charsBetween_of_broken {broken : Option Char}
    (outside : ∀ c ∈ broken, ¬(start ≤ offset ∧ offset + (encodeChar c).length ≤ stop)) :
    charsBetween start stop offset broken.toList = [] := by
  cases broken with
  | none => rfl
  | some c =>
      rw [Option.toList_some, charsBetween, if_neg (outside c rfl)]
      rfl

/-- Between two cuts there are the characters that neither of them breaks. -/
theorem charsBetween_of_cuts {upTo front middle rear : Text} {first last : Option Char}
    (lastCut : CutAt text stop upTo last rear) (firstCut : CutAt upTo start front first middle) :
    charsBetween start stop 0 text = middle := by
  have start_eq := firstCut.position_eq
  have stop_eq := lastCut.position_eq
  have firstWidth := firstCut.length_broken
  have lastWidth := lastCut.length_broken
  have upTo_eq : (encode upTo).length =
      (encode front).length + (encode first.toList).length + (encode middle).length := by
    rw [firstCut.text_eq, encode_append, encode_append, List.length_append, List.length_append]
  have noneFront : charsBetween start stop 0 front = [] := charsBetween_of_before (by omega)
  have noneFirst : charsBetween start stop (0 + (encode front).length) first.toList = [] := by
    refine charsBetween_of_broken fun c present fits => ?_
    rw [Option.mem_def.mp present, Option.toList_some, List.length_singleton] at start_eq
    omega
  have allMiddle :
      charsBetween start stop (0 + (encode (front ++ first.toList)).length) middle = middle := by
    rw [encode_append, List.length_append]
    exact charsBetween_of_within (by omega) (by omega)
  have noneLast : charsBetween start stop (0 + (encode upTo).length) last.toList = [] := by
    refine charsBetween_of_broken fun c present fits => ?_
    rw [Option.mem_def.mp present, Option.toList_some, List.length_singleton] at stop_eq lastWidth
    rw [encode_singleton] at lastWidth
    omega
  have noneRear :
      charsBetween start stop (0 + (encode (upTo ++ last.toList)).length) rear = [] := by
    rw [encode_append, List.length_append]
    exact charsBetween_of_after (by omega)
  rw [lastCut.text_eq, charsBetween_append, charsBetween_append, noneRear, noneLast,
    firstCut.text_eq, charsBetween_append, charsBetween_append, noneFront, noneFirst, allMiddle,
    List.append_nil, List.append_nil]
  rfl

end Between

/-- **Decoding a range.** A range of the units of a text is read as the characters that lie in it
with all their units, and a replacement for each end at which it breaks a pair. -/
theorem decode_between (text : Text) {start stop : Nat} (filled : start < stop)
    (inside : stop ≤ (encode text).length) :
    decode (((encode text).drop start).take (stop - start)) =
      (if splitsPair (encode text) start then [replacement] else []) ++
        charsBetween start stop 0 text ++
        if splitsPair (encode text) stop then [replacement] else [] := by
  obtain ⟨upTo, last, rear, lastCut⟩ := exists_cutAt text inside
  -- The range begins before the half of a pair with which it may end.
  have before : start ≤ (encode upTo).length := by
    have stop_eq := lastCut.position_eq
    have atMost := Option.length_toList_le (o := last)
    omega
  obtain ⟨front, first, middle, firstCut⟩ := exists_cutAt upTo before
  have firstSplit := (firstCut.append (last.toList ++ rear)).splitsPair_eq
  rw [← List.append_assoc, ← lastCut.text_eq] at firstSplit
  have units : ((encode text).drop start).take (stop - start) =
      (encode first.toList).drop 1 ++ (encode middle ++ (encode last.toList).take 1) := by
    rw [← List.drop_take, lastCut.take_eq, List.drop_append_of_le_length before, firstCut.drop_eq,
      List.append_assoc]
  rw [units, firstCut.decode_drop, decode_encode_append, lastCut.decode_take, firstSplit,
    lastCut.splitsPair_eq, charsBetween_of_cuts lastCut firstCut, List.append_assoc]

end Units

namespace Rope

/-- **Decoding views.** The view of a rope decodes to its text. A view of a range of its units,
which can be cut out of it for any bounds in order, decodes to the characters that lie in the range
with all their units, after a replacement if the range begins between the halves of a surrogate
pair, and before one if it ends between the halves of one. -/
theorem decode_range [CharacterTable] (rope : Rope) :
    rope.unitView.decode = rope.text ∧
    ∀ start stop, start < stop → stop ≤ (Units.encode rope.text).length →
      (∃ view, rope.unitView.slice start stop = .ok view ∧ ShowsRange rope view start stop) ∧
      ∀ view, ShowsRange rope view start stop →
        view.decode =
          (if Units.splitsPair (Units.encode rope.text) start then [Units.replacement] else []) ++
            Units.charsBetween start stop 0 rope.text ++
            if Units.splitsPair (Units.encode rope.text) stop then [Units.replacement] else [] := by
  constructor
  · rw [UnitView.decode, (sound_unitView rope).units_eq, shown_unitView, Units.decode_encode]
  · intro start stop filled inside
    constructor
    · have ordered := Nat.le_of_lt filled
      refine ⟨rope.unitsBetween start stop, ?_, showsRange_unitsBetween ordered inside⟩
      rw [unitView_eq, slice_unitsBetween, if_pos ⟨ordered, inside⟩, Nat.zero_add, Nat.zero_add]
    · intro view shows
      rw [UnitView.decode, UnitView.units, shows.toList]
      exact Units.decode_between rope.text filled inside

/-- A range that breaks a pair at either end. -/
theorem decode_range_of_halves :
    let rope := Rope.ofText .standard ['a', '😍', 'b', '🐻']
    rope.unitView.decode = ['a', '😍', 'b', '🐻'] ∧
      ∃ view, rope.unitView.slice 2 5 = .ok view ∧
        view.decode = [Units.replacement, 'b', Units.replacement] := by
  intro rope
  have text : rope.text = ['a', '😍', 'b', '🐻'] := by decide +kernel
  obtain ⟨whole, ranges⟩ := decode_range rope
  rw [text] at whole ranges
  obtain ⟨⟨view, cut, shows⟩, decoded⟩ := ranges 2 5 (by decide) (by decide)
  refine ⟨whole, view, cut, (decoded view shows).trans ?_⟩
  decide

end Rope
end GraphemeRope
