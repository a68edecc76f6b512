import SourceEdit.Config
import SourceEdit.FileTree
import SourceEdit.Glob
import SourceEdit.Project

/-!
# What loading leaves out

A project is loaded without what its configuration ignores, without what the lines of its own
ignore file name, and without hidden files. An ignored path stands for whatever has the path,
at any depth, with all that lies in it.
-/

namespace SourceEdit

inductive LoadError where
  | badIgnorePath (error : GlobError)
  | badIgnoreGlob (error : GlobError)
  /-- The ignore file of the project exists and cannot be read. -/
  | unreadable (fault : ReadFault)
  | badIgnoreLine (error : GlobError)
  /-- The files that were found do not make up a project. -/
  | badProject (root : String) (error : ProjectError)
  deriving Repr, DecidableEq

namespace LoadError

def message : LoadError → String
  | .badIgnorePath _ => "invalid ignore path pattern"
  | .badIgnoreGlob _ => "invalid ignore glob"
  | .unreadable fault => fault.message
  | .badIgnoreLine _ => "invalid .projeditignore pattern"
  | .badProject root _ => "failed to load project from " ++ root

def causes : LoadError → List String
  | .badIgnorePath e | .badIgnoreGlob e | .badIgnoreLine e => [e.message]
  | .unreadable _ => []
  | .badProject _ e => [e.message]

end LoadError

structure Exclusion where
  globs : List Glob
  showHidden : Bool

namespace Exclusion

def fileName : String := ".projeditignore"

/-- The hidden directory that is loaded all the same. -/
def alwaysLoaded : String := ".atomist"

/-- The globs for an ignored path: the path itself and all below it, at the root or deeper. Blanks
and slashes at its ends do not count; nothing else is left of some paths. -/
def pathGlobs (raw : String) : List String :=
  let text := Text.trimWhile (· == '/') (Text.trim raw.toList)
  if text.isEmpty then []
  else
    let text := String.ofList text
    [text, text ++ "/**", "**/" ++ text, "**/" ++ text ++ "/**"]

/-- Reads globs, in which wildcards match slashes too. -/
def readGlobs (fail : GlobError → LoadError) (texts : List String) : Except LoadError (List Glob) :=
  texts.mapM fun text => (Glob.ofString false false text).mapError fail

/-- The patterns in an ignore file: its lines without blanks around them, except comments. -/
def patternLines (text : String) : List String :=
  let lines := (Text.fields '\n' text.toList).map Text.trim
  (lines.filter fun l => !l.isEmpty && l.head? != some '#').map String.ofList

def filePatterns (tree : FileTree) (root : List String) : Except LoadError (List String) :=
  match tree.text? (root ++ [fileName]) with
  | none => .ok []
  | some (.error fault) => .error (.unreadable fault)
  | some (.ok text) => .ok (patternLines text)

def load (tree : FileTree) (root : List String) (config : Config) : Except LoadError Exclusion := do
  let paths ← readGlobs .badIgnorePath (config.ignore.paths.flatMap pathGlobs)
  let globs ← readGlobs .badIgnoreGlob config.ignore.globs
  let patterns ← filePatterns tree root
  let lines ← readGlobs .badIgnoreLine (patterns.flatMap pathGlobs)
  let own ← readGlobs .badIgnoreLine [fileName]
  return { globs := paths ++ globs ++ lines ++ own, showHidden := config.defaults.showHidden }

/-- Whether a path below the root is hidden: a name on it starts with a dot. -/
def isHidden (path : List String) : Bool :=
  path.head? != some alwaysLoaded && path.any fun name => name.toList.head? == some '.'

/-- Whether an entry is left out, and all below it. -/
def excludes (e : Exclusion) (path : List String) : Bool :=
  (!e.showHidden && isHidden path) || e.globs.any (·.isMatch (pathText path))

end Exclusion

end SourceEdit
