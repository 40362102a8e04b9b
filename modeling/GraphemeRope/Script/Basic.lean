import GraphemeRope.Rope.Edit

/-! # Edits

An edit names one change of a rope and can be applied to any rope. -/

namespace GraphemeRope

/-- One step of an edit script. -/
inductive Edit where
  | append (content : Text)
  | insert (index : Nat) (content : Text)
  | replace (start stop : Nat) (content : Text)
  | remove (start stop : Nat)
  deriving DecidableEq, Repr

namespace Edit

variable [CharacterTable]

/-- The rope after an edit. -/
def apply (rope : Rope) : Edit → Except RopeError Rope
  | .append content => .ok (rope.append content)
  | .insert index content => rope.insert index content
  | .replace start stop content => rope.replace start stop content
  | .remove start stop => rope.remove start stop

/-- The rope after a row of edits, or the first edit that is refused and why. -/
def applyAll (rope : Rope) : List Edit → Except (Edit × RopeError) Rope
  | [] => .ok rope
  | edit :: rest =>
      match edit.apply rope with
      | .ok next => applyAll next rest
      | .error error => .error (edit, error)

end Edit
end GraphemeRope
