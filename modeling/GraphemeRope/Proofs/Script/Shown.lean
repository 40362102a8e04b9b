import GraphemeRope.Proofs.Rope.TextEdit
import GraphemeRope.Proofs.Script.Grammar
import GraphemeRope.Script.Render
import GraphemeRope.Unicode.Table

/-! # Reading shown edits

A report shows the text of an edit with more escapes than can be read. An edit that was read is
therefore read back from what is shown of it only if no character of its text is shown by one of the
others; then it is the same edit, and otherwise the letter of the first such escape is refused
(`GraphemeRope.Edit.parse_render`). It is never taken for another edit.
-/

namespace GraphemeRope

section Definitions

variable [CharacterTable]

/-- The letter of the escape by which a character is shown, if there is one that is not read.
`exposed` tells that nothing of the text stands before the character. -/
def Quoted.unreadLetter? (exposed : Bool) (c : Char) : Option Char :=
  if c = '\x00' then some '0'
  else if c = '\r' then some 'r'
  else if c = '\'' ∨ c = '"' then some c
  else if c = '\n' ∨ c = '\t' ∨ c = '\\' then none
  else if (exposed && CharacterTable.attaches c) || !CharacterTable.isPrintable c then some 'u'
  else none

/-- The letter of the first escape in a shown text that is not read. -/
def Quoted.unread? : Text → Option Char
  | [] => none
  | c :: rest => (unreadLetter? true c).or (rest.findSome? (unreadLetter? false))

/-- What is read of a shown text. -/
def Edit.reread (content : Text) : Except ScriptError Text :=
  match Quoted.unread? content with
  | none => .ok content
  | some letter => .error (.unknownEscape letter)

end Definitions

namespace Numeral

variable {start stop : Nat}

/-- The ends of a range that can be read fit in the bits of an index. -/
theorem WritesRange.representable {argument : Text} (range : WritesRange argument start stop) :
    ∀ position ∈ [start, stop], position < 2 ^ Geometry.indexBits := by
  cases range with
  | ends first last =>
      exact List.forall_mem_cons.mpr ⟨first.lt, List.forall_mem_singleton.mpr last.lt⟩

/-- Positions in decimal digits with two dots between them are a range. -/
theorem writesRange_render
    (representable : ∀ position ∈ [start, stop], position < 2 ^ Geometry.indexBits) :
    WritesRange (render start ++ ['.', '.'] ++ render stop) start stop := by
  rw [List.forall_mem_cons, List.forall_mem_singleton] at representable
  exact .ends (writes_render representable.1) (writes_render representable.2)

end Numeral

namespace Edit

section Shown

variable [CharacterTable]

omit [CharacterTable] in
/-- All but a few characters have no letter for an escape. -/
theorem shortEscape?_eq_none {c : Char} (zero : c ≠ '\x00') (back : c ≠ '\r')
    (quote : ¬(c = '\'' ∨ c = '"')) (read : ¬(c = '\n' ∨ c = '\t' ∨ c = '\\')) :
    Quoted.shortEscape? ['\'', '"'] c = none := by
  simp only [not_or] at quote read
  simp [Quoted.shortEscape?, zero, back, quote, read]

/-- **A shown character** is read back, or the letter of its escape is refused. -/
theorem unescape_showChar (exposed : Bool) (c : Char) (rest : Text) :
    unescape (Quoted.showChar ['\'', '"'] exposed c ++ rest) =
      match Quoted.unreadLetter? exposed c with
      | none => (unescape rest).map (c :: ·)
      | some letter => .error (.unknownEscape letter) := by
  by_cases zero : c = '\x00'
  · subst zero
    exact unescape_unknown (escaped?_eq_none_iff.mp rfl) rest
  by_cases back : c = '\r'
  · subst back
    exact unescape_unknown (escaped?_eq_none_iff.mp rfl) rest
  by_cases quote : c = '\'' ∨ c = '"'
  · rcases quote with rfl | rfl
    · exact unescape_unknown (escaped?_eq_none_iff.mp rfl) rest
    · exact unescape_unknown (escaped?_eq_none_iff.mp rfl) rest
  by_cases read : c = '\n' ∨ c = '\t' ∨ c = '\\'
  · rcases read with rfl | rfl | rfl
    · exact unescape_escape (escaped?_eq_some_iff.mp rfl) rest
    · exact unescape_escape (escaped?_eq_some_iff.mp rfl) rest
    · exact unescape_escape (escaped?_eq_some_iff.mp rfl) rest
  -- What is left is shown by its code point or as itself.
  rw [Quoted.showChar, shortEscape?_eq_none zero back quote read, Quoted.unreadLetter?, if_neg zero,
    if_neg back, if_neg quote, if_neg read]
  simp only
  split
  · exact unescape_unknown (escaped?_eq_none_iff.mp rfl) _
  · rw [not_or, not_or] at read
    exact unescape_plain read.2.2 rest

/-- Of characters shown one by one all are read back, or the letter of the first escape is
refused. -/
theorem unescape_flatMap_showChar (content : Text) :
    unescape (content.flatMap (Quoted.showChar ['\'', '"'] false)) =
      match content.findSome? (Quoted.unreadLetter? false) with
      | none => .ok content
      | some letter => .error (.unknownEscape letter) := by
  induction content with
  | nil => rfl
  | cons c rest ih =>
      rw [List.flatMap_cons, unescape_showChar, List.findSome?_cons]
      cases Quoted.unreadLetter? false c with
      | some letter => rfl
      | none =>
          simp only [ih]
          cases rest.findSome? (Quoted.unreadLetter? false) <;> rfl

/-- Of a shown text is read what can be reread of it. -/
theorem unescape_inlined (content : Text) :
    unescape (Quoted.inlined content) = reread content := by
  cases content with
  | nil => rfl
  | cons c rest =>
      rw [Quoted.inlined, unescape_showChar, reread, Quoted.unread?]
      cases Quoted.unreadLetter? true c with
      | some letter => rfl
      | none =>
          simp only [Option.none_or, unescape_flatMap_showChar]
          cases rest.findSome? (Quoted.unreadLetter? false) <;> rfl

omit [CharacterTable] in
/-- The positions of an edit that was read fit in the bits of an index. -/
theorem Written.representable {written : Text} {edit : Edit} (rule : Written written edit) :
    ∀ position ∈ edit.positions, position < 2 ^ Geometry.indexBits := by
  cases rule with
  | append _ => exact List.forall_mem_nil _
  | insert position _ => exact List.forall_mem_singleton.mpr position.lt
  | replace range _ => exact range.representable
  | remove range => exact range.representable

/-- An edit of a reread text is made of the text, or refused as the text is. -/
theorem map_reread (content : Text) (make : Text → Edit) :
    (reread content).map make =
      match Quoted.unread? content with
      | none => .ok (make content)
      | some letter => .error (.unknownEscape letter) := by
  rw [reread]
  cases Quoted.unread? content <;> rfl

/-- An insertion is shown as its word, its position and its text. -/
theorem render_insert (index : Nat) (content : Text) :
    (Edit.insert index content).render =
      Kind.insert.word ++ ':' :: (Numeral.render index ++ ':' :: Quoted.inlined content) := by
  have heading : "insert:".toList = Kind.insert.word ++ [':'] := rfl
  change "insert:".toList ++ Numeral.render index ++ [':'] ++ Quoted.inlined content = _
  simp only [heading, List.append_assoc, List.cons_append, List.nil_append]

/-- A replacement is shown as its word, its range and its text. -/
theorem render_replace (start stop : Nat) (content : Text) :
    (Edit.replace start stop content).render = Kind.replace.word ++ ':' ::
      (Numeral.render start ++ ['.', '.'] ++ Numeral.render stop ++
        ':' :: Quoted.inlined content) := by
  have heading : "replace:".toList = Kind.replace.word ++ [':'] := rfl
  change "replace:".toList ++ Numeral.render start ++ ['.', '.'] ++ Numeral.render stop ++ [':'] ++
    Quoted.inlined content = _
  simp only [heading, List.append_assoc, List.cons_append, List.nil_append]

/-- A removal is shown as its word and its range. -/
theorem render_remove (start stop : Nat) :
    (Edit.remove start stop).render = Kind.remove.word ++ ':' ::
      (Numeral.render start ++ ['.', '.'] ++ Numeral.render stop) := by
  have heading : "remove:".toList = Kind.remove.word ++ [':'] := rfl
  change "remove:".toList ++ Numeral.render start ++ ['.', '.'] ++ Numeral.render stop = _
  simp only [heading, List.append_assoc, List.cons_append, List.nil_append]

/-- **Reading what is shown.** An edit that was read is read back from what is shown of it, unless a
character of its text is shown by an escape that is not read. Then the letter of the first such
escape is refused. -/
theorem parse_render {written : Text} {edit : Edit} (read : parse written = .ok edit) :
    parse edit.render =
      match Quoted.unread? edit.content with
      | none => .ok edit
      | some letter => .error (.unknownEscape letter) := by
  have representable := (parse_eq_ok_iff.mp read).representable
  cases edit with
  | append content =>
      have shown : (Edit.append content).render =
          Kind.append.word ++ ':' :: Quoted.inlined content := rfl
      rw [shown, parse_append, unescape_inlined]
      exact map_reread content _
  | insert index content =>
      rw [positions, List.forall_mem_singleton] at representable
      have position := Numeral.writes_render representable
      rw [render_insert, parse_insert (colon_not_mem position), parsePosition_ok position,
        unescape_inlined]
      exact map_reread content _
  | replace start stop content =>
      have range := Numeral.writesRange_render representable
      rw [render_replace, parse_replace (colon_not_mem_range range), parseRange_ok range,
        unescape_inlined]
      exact map_reread content _
  | remove start stop =>
      have range := Numeral.writesRange_render representable
      rw [render_remove, parse_remove, parseRange_ok range]
      rfl

end Shown

/-- A mark that is escaped where it comes first, before a quote that is escaped anywhere. -/
theorem parse_render_of_mark :
    let edit : Edit := .insert 0 ['\u0301', '\'']
    parse "insert:0:\u0301'".toList = .ok edit ∧
      parse edit.render = .error (.unknownEscape 'u') := by
  intro edit
  have read : parse "insert:0:\u0301'".toList = .ok edit := rfl
  have unread : Quoted.unread? edit.content = some 'u' := by decide +kernel
  have shown := parse_render read
  rw [unread] at shown
  exact ⟨read, shown⟩

/-- With no table of characters can every edit that is read be read back from what is shown of it: a
quote is shown by an escape that is not read. -/
theorem not_reread :
    ¬∃ _ : CharacterTable, ∀ (written : Text) (edit : Edit), parse written = .ok edit →
      parse edit.render = .ok edit := by
  rintro ⟨_, reread⟩
  have refused := reread "append:it's".toList (.append "it's".toList) rfl
  -- Whatever the table says of the letters, there is an escape that is not read.
  have unread : ∃ letter, Quoted.unread? "it's".toList = some letter := by
    rw [← Option.isSome_iff_exists]
    have quote : Quoted.unreadLetter? false '\'' = some '\'' := rfl
    simp [Quoted.unread?, quote]
  obtain ⟨letter, unread⟩ := unread
  have shown : parse (Edit.append "it's".toList).render = .error (.unknownEscape letter) := by
    change parse (Kind.append.word ++ ':' :: Quoted.inlined "it's".toList) = _
    rw [parse_append, unescape_inlined, map_reread, unread]
  rw [shown] at refused
  cases refused

end Edit
end GraphemeRope
