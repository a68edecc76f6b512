import SourceEdit.Text.Fields

/-!
# Files

A file is a path and a content. The slashes of the path separate directories; its last part is
the name of the file, and what follows the last dot of the name is the extension.
-/

namespace SourceEdit

structure File where
  path : String
  content : String
  deriving Repr, DecidableEq, Inhabited

namespace File

/-- The part of the path after its last slash. -/
def name (f : File) : String :=
  String.ofList (Text.splitLast '/' f.path.toList).2

/-- What follows the last dot of the name, unless that dot is missing or opens the name. -/
def extension? (f : File) : Option String :=
  match Text.splitLast '.' f.name.toList with
  | (some (_ :: _), ext) => some (String.ofList ext)
  | _ => none

/-- The part of the path before its last slash; empty if there is none. -/
def directory (f : File) : String :=
  String.ofList ((Text.splitLast '/' f.path.toList).1.getD [])

end File

/-- A path that a file of a project may have: it is not empty, no slash stands at either end, and no
part between slashes is empty, `.` or `..`. -/
def isValidPath (path : String) : Bool :=
  let cs := path.toList
  !(cs.isEmpty || cs.head? == some '/' || cs.getLast? == some '/' ||
    (Text.fields '/' cs).any fun part => part.isEmpty || part == ['.'] || part == ['.', '.'])

end SourceEdit
