import SourceEdit.Text.Blank
import SourceEdit.Text.Fields

/-!
# Coordinates

An archive is identified by a group, a name within the group and a version, written with colons
between them.
-/

namespace SourceEdit

structure Coordinate where
  group : String
  artifact : String
  version : String
  deriving Repr, DecidableEq, Inhabited

namespace Coordinate

/-- Reads a coordinate: exactly three parts, none of which is blank; blanks around them do not
count. -/
def ofString? (text : String) : Option Coordinate :=
  match (Text.fields ':' text.toList).map Text.trim with
  | [g, a, v] =>
    if g.isEmpty || a.isEmpty || v.isEmpty then none
    else some ⟨String.ofList g, String.ofList a, String.ofList v⟩
  | _ => none

def toText (c : Coordinate) : String :=
  c.group ++ ":" ++ c.artifact ++ ":" ++ c.version

end Coordinate

end SourceEdit
