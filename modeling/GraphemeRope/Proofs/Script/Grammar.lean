import GraphemeRope.Proofs.Script.Numeral
import GraphemeRope.Script.Parse

/-! # The grammar of edits

An edit is written as one of four kinds and, after colons, its arguments; the text that it puts in
comes last and has its own rules of escape. These rules say which texts write which edit
(`GraphemeRope.Edit.Written`), and for all other texts which of their mistakes counts
(`GraphemeRope.Edit.Rejected`). Reading follows them exactly (`GraphemeRope.Edit.parse_iff`).
-/

namespace GraphemeRope

/-- The numerals of two positions with two dots between them. -/
inductive Numeral.WritesRange : Text → Nat → Nat → Prop where
  | ends {front rear : Text} {start stop : Nat} (first : Writes front start)
      (last : Writes rear stop) : WritesRange (front ++ ['.', '.'] ++ rear) start stop

namespace Edit

/-- The letters that may stand after a backslash, each with the character that it stands for. -/
def escapes : List (Char × Char) := [('n', '\n'), ('t', '\t'), ('\\', '\\')]

/-- The texts in which each backslash, from the left, starts an escape, with what they stand for. -/
inductive Escaped : Text → Text → Prop where
  | nil : Escaped [] []
  | plain {c : Char} {written content : Text} (literal : c ≠ '\\')
      (read : Escaped written content) : Escaped (c :: written) (c :: content)
  | escape {letter c : Char} {written content : Text} (listed : (letter, c) ∈ escapes)
      (read : Escaped written content) : Escaped ('\\' :: letter :: written) (c :: content)

/-- The texts in which a backslash starts no escape, with what is wrong about the first one. -/
inductive Misescaped : Text → ScriptError → Prop where
  | unknown {front content : Text} {letter : Char} (read : Escaped front content)
      (unlisted : ∀ c, (letter, c) ∉ escapes) (rest : Text) :
      Misescaped (front ++ '\\' :: letter :: rest) (.unknownEscape letter)
  | dangling {front content : Text} (read : Escaped front content) :
      Misescaped (front ++ ['\\']) .danglingEscape

/-- The texts that write an edit. -/
inductive Written : Text → Edit → Prop where
  | append {written content : Text} (read : Escaped written content) :
      Written (Kind.append.word ++ ':' :: written) (.append content)
  | insert {argument written content : Text} {index : Nat}
      (position : Numeral.Writes argument index) (read : Escaped written content) :
      Written (Kind.insert.word ++ ':' :: (argument ++ ':' :: written)) (.insert index content)
  | replace {argument written content : Text} {start stop : Nat}
      (range : Numeral.WritesRange argument start stop) (read : Escaped written content) :
      Written (Kind.replace.word ++ ':' :: (argument ++ ':' :: written))
        (.replace start stop content)
  | remove {argument : Text} {start stop : Nat}
      (range : Numeral.WritesRange argument start stop) :
      Written (Kind.remove.word ++ ':' :: argument) (.remove start stop)

/-- The texts that write no edit, with the mistake that counts: the kind comes before a missing
argument, that before a position or a range, and these before the escapes. -/
inductive Rejected : Text → ScriptError → Prop where
  | noKind {written : Text} (single : ':' ∉ written) (other : ∀ kind : Kind, written ≠ kind.word) :
      Rejected written (.unknownEdit written)
  | otherKind {word : Text} (first : ':' ∉ word) (other : ∀ kind : Kind, word ≠ kind.word)
      (arguments : Text) : Rejected (word ++ ':' :: arguments) (.unknownEdit word)
  | noArgument (kind : Kind) : Rejected kind.word (.missingArgument kind.word)
  | oneArgument {kind : Kind} {argument : Text} (several : kind = .insert ∨ kind = .replace)
      (single : ':' ∉ argument) :
      Rejected (kind.word ++ ':' :: argument) (.missingArgument kind.word)
  | insertPosition {argument : Text} (first : ':' ∉ argument)
      (wrong : ∀ index, ¬Numeral.Writes argument index) (written : Text) :
      Rejected (Kind.insert.word ++ ':' :: (argument ++ ':' :: written)) (.invalidPosition argument)
  | replaceRange {argument : Text} (first : ':' ∉ argument)
      (wrong : ∀ start stop, ¬Numeral.WritesRange argument start stop) (written : Text) :
      Rejected (Kind.replace.word ++ ':' :: (argument ++ ':' :: written)) (.invalidRange argument)
  | removeRange {argument : Text}
      (wrong : ∀ start stop, ¬Numeral.WritesRange argument start stop) :
      Rejected (Kind.remove.word ++ ':' :: argument) (.invalidRange argument)
  | appendEscape {written : Text} {error : ScriptError} (misread : Misescaped written error) :
      Rejected (Kind.append.word ++ ':' :: written) error
  | insertEscape {argument written : Text} {index : Nat} {error : ScriptError}
      (position : Numeral.Writes argument index) (misread : Misescaped written error) :
      Rejected (Kind.insert.word ++ ':' :: (argument ++ ':' :: written)) error
  | replaceEscape {argument written : Text} {start stop : Nat} {error : ScriptError}
      (range : Numeral.WritesRange argument start stop) (misread : Misescaped written error) :
      Rejected (Kind.replace.word ++ ':' :: (argument ++ ':' :: written)) error

/-- A text is cut at the first mark if what is before it does not have its first character. -/
theorem cutAt?_append {first : Char} {front : Text} (before : first ∉ front) (more rear : Text) :
    cutAt? (first :: more) (front ++ (first :: more) ++ rear) = some (front, rear) := by
  induction front with
  | nil =>
      rw [List.nil_append, List.cons_append, cutAt?, if_pos, ← List.cons_append, List.drop_left]
      rw [List.isPrefixOf_iff_prefix]
      exact List.prefix_append (first :: more) rear
  | cons c front ih =>
      rw [List.mem_cons, not_or] at before
      have onward :
          ¬(first :: more).isPrefixOf (c :: (front ++ (first :: more) ++ rear)) = true := by
        rw [List.isPrefixOf_iff_prefix, List.cons_prefix_cons]
        exact fun starts => before.1 starts.1
      rw [List.cons_append, List.cons_append, cutAt?, if_neg onward, ih before.2]
      rfl

/-- A text without the first character of a mark is not cut. -/
theorem cutAt?_of_not_mem {first : Char} {text : Text} (absent : first ∉ text) (more : Text) :
    cutAt? (first :: more) text = none := by
  induction text with
  | nil => rfl
  | cons c rest ih =>
      rw [List.mem_cons, not_or] at absent
      have onward : ¬(first :: more).isPrefixOf (c :: rest) = true := by
        rw [List.isPrefixOf_iff_prefix, List.cons_prefix_cons]
        exact fun starts => absent.1 starts.1
      rw [cutAt?, if_neg onward, ih absent.2]
      rfl

/-- A text that is cut consists of its parts and the separator between them. -/
theorem eq_of_cutAt? {separator text front rear : Text}
    (cut : cutAt? separator text = some (front, rear)) : text = front ++ separator ++ rear := by
  induction text generalizing front with
  | nil => cases cut
  | cons c rest ih =>
      rw [cutAt?] at cut
      split at cut
      · next starts =>
          obtain ⟨more, same⟩ := List.isPrefixOf_iff_prefix.mp starts
          rw [← same, List.drop_left] at cut
          cases cut
          exact same.symm
      · obtain ⟨⟨earlier, later⟩, found, parts⟩ := Option.map_eq_some_iff.mp cut
        cases parts
        rw [ih found]
        rfl

/-- A letter is read as a character exactly if the escapes say so. -/
theorem escaped?_eq_some_iff {letter c : Char} :
    escaped? letter = some c ↔ (letter, c) ∈ escapes := by
  simp only [escapes, List.mem_cons, Prod.mk.injEq, List.not_mem_nil, or_false]
  unfold escaped?
  by_cases newline : letter = 'n'
  · subst newline
    simp [eq_comm]
  · by_cases tab : letter = 't'
    · subst tab
      simp [eq_comm]
    · by_cases backslash : letter = '\\'
      · subst backslash
        simp [eq_comm]
      · simp [newline, tab, backslash]

/-- A letter is not read exactly if the escapes do not have it. -/
theorem escaped?_eq_none_iff {letter : Char} :
    escaped? letter = none ↔ ∀ c, (letter, c) ∉ escapes := by
  simp only [Option.eq_none_iff_forall_ne_some, ne_eq, escaped?_eq_some_iff]

/-- A character that is not a backslash is read as itself. -/
theorem unescape_plain {c : Char} (literal : c ≠ '\\') (written : Text) :
    unescape (c :: written) = (unescape written).map (c :: ·) := by
  rw [unescape]
  · exact fun backslash => absurd backslash literal
  · exact fun letter rest backslash => absurd backslash literal

/-- A listed escape is read as its character. -/
theorem unescape_escape {letter c : Char} (listed : (letter, c) ∈ escapes) (written : Text) :
    unescape ('\\' :: letter :: written) = (unescape written).map (c :: ·) := by
  rw [unescape, escaped?_eq_some_iff.mpr listed]

/-- An escape that is not listed is refused with its letter. -/
theorem unescape_unknown {letter : Char} (unlisted : ∀ c, (letter, c) ∉ escapes)
    (written : Text) :
    unescape ('\\' :: letter :: written) = .error (.unknownEscape letter) := by
  rw [unescape, escaped?_eq_none_iff.mpr unlisted]

/-- What is read of a text does not depend on what stands after it. -/
theorem Escaped.unescape_append {front content : Text} (read : Escaped front content)
    (written : Text) : unescape (front ++ written) = (unescape written).map (content ++ ·) := by
  induction read with
  | nil =>
      cases ended : unescape written with
      | ok more => exact ended
      | error error => exact ended
  | plain literal _ ih =>
      rw [List.cons_append, unescape_plain literal, ih]
      cases unescape written <;> rfl
  | escape listed _ ih =>
      rw [List.cons_append, List.cons_append, unescape_escape listed, ih]
      cases unescape written <;> rfl

/-- A text written by the rules for escapes is read. -/
theorem Escaped.unescape_eq {written content : Text} (read : Escaped written content) :
    unescape written = .ok content := by
  have ended := read.unescape_append []
  rw [List.append_nil] at ended
  rw [ended, unescape, Except.map, List.append_nil]

/-- A text that breaks the rules for escapes is refused where it breaks them. -/
theorem Misescaped.unescape_eq {written : Text} {error : ScriptError}
    (misread : Misescaped written error) : unescape written = .error error := by
  cases misread with
  | unknown read unlisted rest => rw [read.unescape_append, unescape_unknown unlisted]; rfl
  | dangling read => rw [read.unescape_append]; rfl

/-- A text breaks the rules for escapes if it does so after a plain character. -/
theorem Misescaped.plain {c : Char} {written : Text} {error : ScriptError} (literal : c ≠ '\\')
    (misread : Misescaped written error) : Misescaped (c :: written) error := by
  cases misread with
  | unknown read unlisted rest => exact .unknown (.plain literal read) unlisted rest
  | dangling read => exact .dangling (.plain literal read)

/-- A text breaks the rules for escapes if it does so after a listed escape. -/
theorem Misescaped.escape {letter c : Char} {written : Text} {error : ScriptError}
    (listed : (letter, c) ∈ escapes) (misread : Misescaped written error) :
    Misescaped ('\\' :: letter :: written) error := by
  cases misread with
  | unknown read unlisted rest => exact .unknown (.escape listed read) unlisted rest
  | dangling read => exact .dangling (.escape listed read)

/-- Every text obeys a rule of escapes. -/
theorem exists_escape_rule (written : Text) :
    (∃ content, Escaped written content) ∨ ∃ error, Misescaped written error := by
  induction written using unescape.induct with
  | case1 => exact .inl ⟨_, .nil⟩
  | case2 => exact .inr ⟨_, .dangling .nil⟩
  | case3 letter rest c listed ih =>
      rw [escaped?_eq_some_iff] at listed
      rcases ih with ⟨content, read⟩ | ⟨error, misread⟩
      · exact .inl ⟨_, .escape listed read⟩
      · exact .inr ⟨_, misread.escape listed⟩
  | case4 letter rest unlisted =>
      rw [escaped?_eq_none_iff] at unlisted
      exact .inr ⟨_, .unknown .nil unlisted rest⟩
  | case5 c rest single double ih =>
      have literal : c ≠ '\\' := by
        rintro rfl
        cases rest with
        | nil => exact single rfl rfl
        | cons letter rest => exact double letter rest rfl rfl
      rcases ih with ⟨content, read⟩ | ⟨error, misread⟩
      · exact .inl ⟨_, .plain literal read⟩
      · exact .inr ⟨_, misread.plain literal⟩

theorem parsePosition_ok {argument : Text} {index : Nat}
    (position : Numeral.Writes argument index) : parsePosition argument = .ok index := by
  rw [parsePosition, Numeral.position?_eq_some_iff.mpr position]

/-- Anything but a position is refused as one. -/
theorem parsePosition_error {argument : Text} (wrong : ∀ index, ¬Numeral.Writes argument index) :
    parsePosition argument = .error (.invalidPosition argument) := by
  rw [parsePosition, Numeral.position?_eq_none_iff.mpr wrong]

theorem dot_not_mem {argument : Text} {index : Nat} (position : Numeral.Writes argument index) :
    '.' ∉ argument := position.not_mem (by decide) (by decide)

theorem colon_not_mem {argument : Text} {index : Nat} (position : Numeral.Writes argument index) :
    ':' ∉ argument := position.not_mem (by decide) (by decide)

theorem colon_not_mem_range {argument : Text} {start stop : Nat}
    (range : Numeral.WritesRange argument start stop) : ':' ∉ argument := by
  cases range with
  | ends first last =>
      simp only [List.mem_append, List.mem_cons, List.not_mem_nil, or_false, not_or]
      exact ⟨⟨colon_not_mem first, by decide⟩, colon_not_mem last⟩

theorem parseRange_ok {argument : Text} {start stop : Nat}
    (range : Numeral.WritesRange argument start stop) :
    parseRange argument = .ok (start, stop) := by
  cases range with
  | ends first last =>
      rw [parseRange, cutAt?_append (dot_not_mem first)]
      simp only [Numeral.position?_eq_some_iff.mpr first, Numeral.position?_eq_some_iff.mpr last]

/-- Anything but a range is refused as one. -/
theorem parseRange_error {argument : Text}
    (wrong : ∀ start stop, ¬Numeral.WritesRange argument start stop) :
    parseRange argument = .error (.invalidRange argument) := by
  unfold parseRange
  split
  · rfl
  · next front rear cut =>
      split
      · next start stop first last =>
          rw [Numeral.position?_eq_some_iff] at first last
          exact absurd (eq_of_cutAt? cut ▸ .ends first last) (wrong start stop)
      · rfl

namespace Kind

theorem ofWord?_word (kind : Kind) : ofWord? kind.word = some kind := by
  cases kind <;> rfl

/-- No other word names a kind. -/
theorem ofWord?_eq_none {word : Text} (other : ∀ kind : Kind, word ≠ kind.word) :
    ofWord? word = none := by
  rw [ofWord?, List.find?_eq_none]
  intro kind _
  rw [decide_eq_true_eq]
  exact (other kind).symm

theorem colon_not_mem_word (kind : Kind) : ':' ∉ kind.word := by
  cases kind <;> decide

end Kind

/-- An edit is read by the word before its first colon. -/
theorem parse_cut {word : Text} (first : ':' ∉ word) (arguments : Text) :
    parse (word ++ ':' :: arguments) =
      match Kind.ofWord? word with
      | some kind => parseArguments kind arguments
      | none => .error (.unknownEdit word) := by
  have cut := cutAt?_append first [] arguments
  rw [List.append_assoc, List.singleton_append] at cut
  cases named : Kind.ofWord? word <;> simp only [parse, cut, named]

/-- After the word of a kind its arguments are read. -/
theorem parse_word (kind : Kind) (arguments : Text) :
    parse (kind.word ++ ':' :: arguments) = parseArguments kind arguments := by
  rw [parse_cut kind.colon_not_mem_word, kind.ofWord?_word]

/-- The first argument ends at the next colon. -/
theorem firstArgument_cut (kind : Kind) {argument : Text} (first : ':' ∉ argument)
    (written : Text) :
    firstArgument kind (argument ++ ':' :: written) = .ok (argument, written) := by
  have cut := cutAt?_append first [] written
  rw [List.append_assoc, List.singleton_append] at cut
  rw [firstArgument, cut]

/-- The text of an append is all after its word. -/
theorem parse_append (written : Text) :
    parse (Kind.append.word ++ ':' :: written) = (unescape written).map Edit.append := by
  rw [parse_word, parseArguments]
  cases unescape written <;> rfl

/-- An insertion is read by its position and its text. -/
theorem parse_insert {argument : Text} (first : ':' ∉ argument) (written : Text) :
    parse (Kind.insert.word ++ ':' :: (argument ++ ':' :: written)) =
      (parsePosition argument).bind fun index => (unescape written).map (Edit.insert index) := by
  rw [parse_word, parseArguments, firstArgument_cut _ first]
  change (parsePosition argument >>= fun index =>
    unescape written >>= fun content => pure (Edit.insert index content)) = _
  cases parsePosition argument with
  | error error => rfl
  | ok index => cases unescape written <;> rfl

/-- A replacement is read by its range and its text. -/
theorem parse_replace {argument : Text} (first : ':' ∉ argument) (written : Text) :
    parse (Kind.replace.word ++ ':' :: (argument ++ ':' :: written)) =
      (parseRange argument).bind fun range =>
        (unescape written).map (Edit.replace range.1 range.2) := by
  rw [parse_word, parseArguments, firstArgument_cut _ first]
  change (parseRange argument >>= fun range =>
    unescape written >>= fun content => pure (Edit.replace range.1 range.2 content)) = _
  cases parseRange argument with
  | error error => rfl
  | ok range => cases unescape written <;> rfl

/-- A removal is read by its range. -/
theorem parse_remove (argument : Text) :
    parse (Kind.remove.word ++ ':' :: argument) =
      (parseRange argument).map fun range => Edit.remove range.1 range.2 := by
  rw [parse_word, parseArguments]
  cases parseRange argument <;> rfl

/-- An edit that needs two arguments and has one is refused. -/
theorem parse_oneArgument {kind : Kind} (several : kind = .insert ∨ kind = .replace)
    {argument : Text} (single : ':' ∉ argument) :
    parse (kind.word ++ ':' :: argument) = .error (.missingArgument kind.word) := by
  have missing : firstArgument kind argument = .error (.missingArgument kind.word) := by
    rw [firstArgument, cutAt?_of_not_mem single]
  rw [parse_word]
  rcases several with rfl | rfl
  · rw [parseArguments, missing]
    rfl
  · rw [parseArguments, missing]
    rfl

/-- An edit written by the rules is read. -/
theorem Written.parse_eq {written : Text} {edit : Edit} (rule : Written written edit) :
    parse written = .ok edit := by
  cases rule with
  | append read => rw [parse_append, read.unescape_eq]; rfl
  | insert position read =>
      rw [parse_insert (colon_not_mem position), parsePosition_ok position, read.unescape_eq]
      rfl
  | replace range read =>
      rw [parse_replace (colon_not_mem_range range), parseRange_ok range, read.unescape_eq]
      rfl
  | remove range => rw [parse_remove, parseRange_ok range]; rfl

/-- A text that breaks the rules is refused with the reason they give. -/
theorem Rejected.parse_eq {written : Text} {error : ScriptError}
    (rule : Rejected written error) : parse written = .error error := by
  cases rule with
  | noKind single other =>
      rw [parse, cutAt?_of_not_mem single, Kind.ofWord?_eq_none other]
  | otherKind first other arguments => rw [parse_cut first, Kind.ofWord?_eq_none other]
  | noArgument kind =>
      rw [parse, cutAt?_of_not_mem kind.colon_not_mem_word, kind.ofWord?_word]
  | oneArgument several single => exact parse_oneArgument several single
  | insertPosition first wrong written =>
      rw [parse_insert first, parsePosition_error wrong]
      rfl
  | replaceRange first wrong written =>
      rw [parse_replace first, parseRange_error wrong]
      rfl
  | removeRange wrong => rw [parse_remove, parseRange_error wrong]; rfl
  | appendEscape misread => rw [parse_append, misread.unescape_eq]; rfl
  | insertEscape position misread =>
      rw [parse_insert (colon_not_mem position), parsePosition_ok position, misread.unescape_eq]
      rfl
  | replaceEscape range misread =>
      rw [parse_replace (colon_not_mem_range range), parseRange_ok range, misread.unescape_eq]
      rfl

/-- A text after the kind of an edit obeys a rule of the grammar. -/
theorem exists_rule_of_word (kind : Kind) (arguments : Text) :
    (∃ edit, Written (kind.word ++ ':' :: arguments) edit) ∨
      ∃ error, Rejected (kind.word ++ ':' :: arguments) error := by
  cases kind with
  | append =>
      rcases exists_escape_rule arguments with ⟨content, read⟩ | ⟨error, misread⟩
      · exact .inl ⟨_, .append read⟩
      · exact .inr ⟨_, .appendEscape misread⟩
  | insert =>
      by_cases several : ':' ∈ arguments
      · obtain ⟨argument, written, rfl, first⟩ := List.eq_append_cons_of_mem several
        by_cases position : ∃ index, Numeral.Writes argument index
        · obtain ⟨index, position⟩ := position
          rcases exists_escape_rule written with ⟨content, read⟩ | ⟨error, misread⟩
          · exact .inl ⟨_, .insert position read⟩
          · exact .inr ⟨_, .insertEscape position misread⟩
        · exact .inr ⟨_, .insertPosition first (not_exists.mp position) written⟩
      · exact .inr ⟨_, .oneArgument (.inl rfl) several⟩
  | replace =>
      by_cases several : ':' ∈ arguments
      · obtain ⟨argument, written, rfl, first⟩ := List.eq_append_cons_of_mem several
        by_cases range : ∃ start stop, Numeral.WritesRange argument start stop
        · obtain ⟨start, stop, range⟩ := range
          rcases exists_escape_rule written with ⟨content, read⟩ | ⟨error, misread⟩
          · exact .inl ⟨_, .replace range read⟩
          · exact .inr ⟨_, .replaceEscape range misread⟩
        · simp only [not_exists] at range
          exact .inr ⟨_, .replaceRange first range written⟩
      · exact .inr ⟨_, .oneArgument (.inr rfl) several⟩
  | remove =>
      by_cases range : ∃ start stop, Numeral.WritesRange arguments start stop
      · obtain ⟨start, stop, range⟩ := range
        exact .inl ⟨_, .remove range⟩
      · simp only [not_exists] at range
        exact .inr ⟨_, .removeRange range⟩

/-- Every text obeys a rule of the grammar, to write an edit or to be rejected. -/
theorem exists_rule (written : Text) :
    (∃ edit, Written written edit) ∨ ∃ error, Rejected written error := by
  by_cases several : ':' ∈ written
  · obtain ⟨word, arguments, rfl, first⟩ := List.eq_append_cons_of_mem several
    by_cases known : ∃ kind : Kind, word = kind.word
    · obtain ⟨kind, rfl⟩ := known
      exact exists_rule_of_word kind arguments
    · exact .inr ⟨_, .otherKind first (not_exists.mp known) arguments⟩
  · by_cases known : ∃ kind : Kind, written = kind.word
    · obtain ⟨kind, rfl⟩ := known
      exact .inr ⟨_, .noArgument kind⟩
    · exact .inr ⟨_, .noKind several (not_exists.mp known)⟩

/-- An edit is read from a text exactly if the rules allow it. -/
theorem parse_eq_ok_iff {written : Text} {edit : Edit} :
    parse written = .ok edit ↔ Written written edit := by
  refine ⟨fun read => ?_, Written.parse_eq⟩
  rcases exists_rule written with ⟨other, rule⟩ | ⟨mistake, rule⟩
  · rw [rule.parse_eq] at read
    cases read
    exact rule
  · rw [rule.parse_eq] at read
    cases read

/-- A text is refused for a reason exactly if the rules give it. -/
theorem parse_eq_error_iff {written : Text} {error : ScriptError} :
    parse written = .error error ↔ Rejected written error := by
  refine ⟨fun rejected => ?_, Rejected.parse_eq⟩
  rcases exists_rule written with ⟨other, rule⟩ | ⟨mistake, rule⟩
  · rw [rule.parse_eq] at rejected
    cases rejected
  · rw [rule.parse_eq] at rejected
    cases rejected
    exact rule

/-- A character, after a backslash if it would not be read as itself otherwise or cannot stand in a
line. -/
def escapeChar (c : Char) : Text :=
  match escapes.find? (·.2 = c) with
  | some (letter, _) => ['\\', letter]
  | none => [c]

/-- The text that writes an edit in the plainest way: numbers in decimal digits without sign, and in
the text no escapes but those of a line feed, a tab and a backslash. -/
def write : Edit → Text
  | .append content => Kind.append.word ++ ':' :: content.flatMap escapeChar
  | .insert index content =>
      Kind.insert.word ++ ':' :: (Numeral.render index ++ ':' :: content.flatMap escapeChar)
  | .replace start stop content =>
      Kind.replace.word ++ ':' :: (Numeral.render start ++ ['.', '.'] ++ Numeral.render stop ++
        ':' :: content.flatMap escapeChar)
  | .remove start stop =>
      Kind.remove.word ++ ':' :: (Numeral.render start ++ ['.', '.'] ++ Numeral.render stop)

/-- The positions of an edit. -/
def positions : Edit → List Nat
  | .append _ => []
  | .insert index _ => [index]
  | .replace start stop _ => [start, stop]
  | .remove start stop => [start, stop]

/-- A text whose characters are escaped one by one obeys the rules for escapes. -/
theorem escaped_flatMap (content : Text) : Escaped (content.flatMap escapeChar) content := by
  induction content with
  | nil => exact .nil
  | cons c rest ih =>
      rw [List.flatMap_cons, escapeChar]
      split
      · next letter other found =>
          have listed := List.mem_of_find?_eq_some found
          have same := List.find?_some found
          rw [decide_eq_true_eq] at same
          exact .escape (same ▸ listed) ih
      · next unlisted =>
          refine .plain ?_ ih
          rintro rfl
          cases unlisted

/-- Written in the plainest way, an edit obeys the rules. -/
theorem written_write {edit : Edit}
    (representable : ∀ position ∈ edit.positions, position < 2 ^ Geometry.indexBits) :
    Written edit.write edit := by
  cases edit with
  | append content => exact .append (escaped_flatMap content)
  | insert index content =>
      simp only [positions, List.forall_mem_singleton] at representable
      exact .insert (Numeral.writes_render representable) (escaped_flatMap content)
  | replace start stop content =>
      simp only [positions, List.forall_mem_cons] at representable
      exact .replace (.ends (Numeral.writes_render representable.1)
        (Numeral.writes_render representable.2.1)) (escaped_flatMap content)
  | remove start stop =>
      simp only [positions, List.forall_mem_cons] at representable
      exact .remove (.ends (Numeral.writes_render representable.1)
        (Numeral.writes_render representable.2.1))

/-- **Reading follows the grammar.** A text is read as an edit exactly if it writes that edit, and
rejected with an error exactly if that is the mistake that counts. Every edit is read back from the
text that writes it in the plainest way. -/
theorem parse_iff (written : Text) (edit : Edit) (error : ScriptError) :
    (parse written = .ok edit ↔ Written written edit) ∧
    (parse written = .error error ↔ Rejected written error) ∧
    ((∀ position ∈ edit.positions, position < 2 ^ Geometry.indexBits) →
      parse edit.write = .ok edit) :=
  ⟨parse_eq_ok_iff, parse_eq_error_iff, fun representable => (written_write representable).parse_eq⟩

/-- Separators in the text, a sign and a zero in the range, and a range that is wrong before an
escape that is. -/
theorem parse_iff_of_separators :
    let edit : Edit := .replace 1 2 "..:\\\n".toList
    (∀ position ∈ edit.positions, position < 2 ^ Geometry.indexBits) ∧
      Written "replace:+1..02:..:\\\\\\n".toList edit ∧
      Rejected "replace:1...2:\\q".toList (.invalidRange "1...2".toList) ∧
      parse edit.write = .ok edit := by
  intro edit
  have representable : ∀ position ∈ edit.positions, position < 2 ^ Geometry.indexBits := by decide
  have read := parse_iff "replace:+1..02:..:\\\\\\n".toList edit .danglingEscape
  have rejected := parse_iff "replace:1...2:\\q".toList edit (.invalidRange "1...2".toList)
  exact ⟨representable, read.1.mp rfl, rejected.2.1.mp rfl, read.2.2 representable⟩

end Edit
end GraphemeRope
