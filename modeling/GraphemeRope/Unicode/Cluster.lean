import GraphemeRope.Unicode.BreakClass

/-! # Extended grapheme clusters

A text is cut before each character that starts a cluster. Whether a character does so is decided
by the characters before it alone, so a text can be read from left to right. -/

namespace GraphemeRope

/-- A text, as its characters in order. -/
abbrev Text := List Char

/-- One user-perceived character. -/
abbrev Grapheme := List Char

namespace Cluster

variable [CharacterTable]

/-- Whether a text, read backwards, ends in a consonant followed by a run of conjunct marks with a
linker among them. The flag tells whether a linker has been read. -/
def endsLinked (linked : Bool) : List Char → Bool
  | [] => false
  | c :: earlier =>
      match ConjunctRole.ofChar c with
      | .linker => endsLinked true earlier
      | .extend => endsLinked linked earlier
      | .consonant => linked
      | .outsider => false

/-- Whether a text, read backwards, ends in a pictograph followed by characters that continue it. -/
def endsPictographic : List Char → Bool
  | [] => false
  | c :: earlier =>
      match BreakClass.ofChar c with
      | .extend => endsPictographic earlier
      | .pictographic => true
      | _ => false

/-- The number of regional indicators at the end of a text that is read backwards. -/
def regionalRun : List Char → Nat
  | [] => 0
  | c :: earlier =>
      match BreakClass.ofChar c with
      | .regionalIndicator => regionalRun earlier + 1
      | _ => 0

/-- Whether two neighbours hold together by their classes alone. -/
def pairJoins (before after : BreakClass) : Bool :=
  BreakClass.hangulJoins before after || after = .extend || after = .zeroWidthJoiner ||
    after = .spacingMark || before = .prepended

/-- Whether a character belongs to the cluster of the character `previous` before it, `earlier`
being what stands before both, nearest character first. -/
def continues (previous : Char) (earlier : List Char) (next : Char) : Bool :=
  let before := BreakClass.ofChar previous
  let after := BreakClass.ofChar next
  if before = .carriageReturn && after = .lineFeed then true
  else if before.isolates || after.isolates then false
  else if pairJoins before after then true
  else if ConjunctRole.ofChar next = .consonant && endsLinked false (previous :: earlier) then true
  else if before = .zeroWidthJoiner && after = .pictographic then endsPictographic earlier
  else if before = .regionalIndicator && after = .regionalIndicator then
    regionalRun (previous :: earlier) % 2 = 1
  else false

/-- Whether a character starts a cluster, `past` being the characters before it, nearest first. -/
def starts (past : List Char) (next : Char) : Bool :=
  match past with
  | [] => true
  | previous :: earlier => !continues previous earlier next

/-- Whether a text may be cut between its parts `front` and `rear`. Both ends of a text count. -/
def isBoundary (front rear : Text) : Bool :=
  match rear with
  | [] => true
  | next :: _ => starts front.reverse next

/-- The clusters of a text that stands after `past`, whose nearest character comes first. -/
def segmentAfter (past : List Char) : Text → List Grapheme
  | [] => []
  | [c] => [[c]]
  | c :: next :: rest =>
      let later := segmentAfter (c :: past) (next :: rest)
      if starts (c :: past) next then [c] :: later
      else
        match later with
        | [] => [[c]]
        | cluster :: clusters => (c :: cluster) :: clusters

/-- The extended grapheme clusters of a text. -/
def segment (text : Text) : List Grapheme := segmentAfter [] text

end Cluster
end GraphemeRope
