import GraphemeRope.Script.Parse

/-! # Writing edits -/

namespace GraphemeRope
namespace Edit

variable [CharacterTable]

/-- An edit as it is shown in reports. Its text is shown with every escape a reader may need, more
than the escapes that are read. -/
def render : Edit → Text
  | .append content => "append:".toList ++ Quoted.inlined content
  | .insert index content =>
      "insert:".toList ++ Numeral.render index ++ [':'] ++ Quoted.inlined content
  | .replace start stop content =>
      "replace:".toList ++ Numeral.render start ++ ['.', '.'] ++ Numeral.render stop ++ [':'] ++
        Quoted.inlined content
  | .remove start stop =>
      "remove:".toList ++ Numeral.render start ++ ['.', '.'] ++ Numeral.render stop

end Edit
end GraphemeRope
