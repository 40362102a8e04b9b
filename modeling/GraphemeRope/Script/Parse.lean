import GraphemeRope.Script.Basic
import GraphemeRope.Script.Numeral

/-! # Reading edits

An edit is written as its kind and its arguments, with colons between them. The text comes last and
may hold colons of its own; a backslash in it starts an escape. -/

namespace GraphemeRope

/-- Why a text is not an edit. -/
inductive ScriptError where
  /-- The kind is not one of the four. -/
  | unknownEdit (kind : Text)
  /-- The colon that should follow the kind, or the position after it, is missing. -/
  | missingArgument (kind : Text)
  /-- A position is not a number. -/
  | invalidPosition (argument : Text)
  /-- A range is not two numbers with two dots between them. -/
  | invalidRange (argument : Text)
  /-- A backslash stands before a character that it does not escape. -/
  | unknownEscape (letter : Char)
  /-- A backslash stands at the end. -/
  | danglingEscape
  deriving DecidableEq, Repr

/-- The sentence that reports a text which is not an edit. -/
def ScriptError.message : ScriptError → String
  | .unknownEdit kind =>
      let shown := String.ofList kind
      s!"unknown edit `{shown}`, expected one of append, insert, replace, remove"
  | .missingArgument kind =>
      let shown := String.ofList kind
      s!"`{shown}` needs arguments separated by `:`"
  | .invalidPosition argument =>
      let shown := String.ofList argument
      s!"invalid position `{shown}`"
  | .invalidRange argument =>
      let shown := String.ofList argument
      s!"invalid range `{shown}`, expected START..END"
  | .unknownEscape letter => s!"unknown escape `\\{letter}`"
  | .danglingEscape => "text ends with a lone `\\`"

namespace Edit

/-- The four kinds of edits, as they are written. -/
inductive Kind where
  | append
  | insert
  | replace
  | remove
  deriving DecidableEq, Repr

/-- The word for a kind. -/
def Kind.word : Kind → Text
  | .append => "append".toList
  | .insert => "insert".toList
  | .replace => "replace".toList
  | .remove => "remove".toList

/-- The kind that a word names. -/
def Kind.ofWord? (word : Text) : Option Kind :=
  [.append, .insert, .replace, .remove].find? fun kind : Kind => kind.word = word

/-- What is before and what is after the first occurrence of a separator, which is not empty. -/
def cutAt? (separator : Text) : Text → Option (Text × Text)
  | [] => none
  | c :: rest =>
      if separator.isPrefixOf (c :: rest) then some ([], (c :: rest).drop separator.length)
      else (cutAt? separator rest).map fun parts => (c :: parts.1, parts.2)

/-- The character that a letter after a backslash stands for. -/
def escaped? (letter : Char) : Option Char :=
  if letter = 'n' then some '\n'
  else if letter = 't' then some '\t'
  else if letter = '\\' then some '\\'
  else none

/-- A text with its escapes replaced. -/
def unescape : Text → Except ScriptError Text
  | [] => .ok []
  | ['\\'] => .error .danglingEscape
  | '\\' :: letter :: rest =>
      match escaped? letter with
      | some c => (unescape rest).map (c :: ·)
      | none => .error (.unknownEscape letter)
  | c :: rest => (unescape rest).map (c :: ·)

/-- The first argument and what follows it. -/
def firstArgument (kind : Kind) (arguments : Text) : Except ScriptError (Text × Text) :=
  match cutAt? [':'] arguments with
  | some parts => .ok parts
  | none => .error (.missingArgument kind.word)

/-- The position that an argument writes. -/
def parsePosition (argument : Text) : Except ScriptError Nat :=
  match Numeral.position? argument with
  | some position => .ok position
  | none => .error (.invalidPosition argument)

/-- The two ends of the range that an argument writes. -/
def parseRange (argument : Text) : Except ScriptError (Nat × Nat) :=
  match cutAt? ['.', '.'] argument with
  | none => .error (.invalidRange argument)
  | some (front, rear) =>
      match Numeral.position? front, Numeral.position? rear with
      | some start, some stop => .ok (start, stop)
      | _, _ => .error (.invalidRange argument)

/-- The edit of a kind whose arguments are written after the first colon. -/
def parseArguments (kind : Kind) (arguments : Text) : Except ScriptError Edit :=
  match kind with
  | .append => do
      let content ← unescape arguments
      return .append content
  | .insert => do
      let (argument, written) ← firstArgument kind arguments
      let index ← parsePosition argument
      let content ← unescape written
      return .insert index content
  | .replace => do
      let (argument, written) ← firstArgument kind arguments
      let (start, stop) ← parseRange argument
      let content ← unescape written
      return .replace start stop content
  | .remove => do
      let (start, stop) ← parseRange arguments
      return .remove start stop

/-- The edit that a text writes. -/
def parse (written : Text) : Except ScriptError Edit :=
  match cutAt? [':'] written with
  | none =>
      match Kind.ofWord? written with
      | some kind => .error (.missingArgument kind.word)
      | none => .error (.unknownEdit written)
  | some (word, arguments) =>
      match Kind.ofWord? word with
      | some kind => parseArguments kind arguments
      | none => .error (.unknownEdit word)

end Edit
end GraphemeRope
