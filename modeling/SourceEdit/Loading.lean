import SourceEdit.Ignore.Levels
import SourceEdit.Loading.Exclusion

/-!
# Loading projects

The regular files below a directory become a project. Files that are too large or hold no text
are reported with the reason why they are skipped; what the rules leave out is not reported. The
order in which the files are found does not matter: a report is sorted by path.
-/

namespace SourceEdit

inductive SkipReason where
  | largeFile
  | binaryFile
  deriving Repr, DecidableEq

inductive FoundFile where
  | text (path content : String)
  | skipped (path : String) (reason : SkipReason)
  deriving Repr, DecidableEq

structure LoadReport where
  project : Project
  skipped : List (String × SkipReason)

structure Loader where
  disk : Disk
  /-- The text of the path to the root. -/
  rootText : String
  root : List String
  config : Config
  /-- The most bytes that a file may have. -/
  maxFileSize : UInt64
  personal : IgnoreRules

namespace Loader

/-- What becomes of a file: size first, then content. Text holds no null character. -/
def examine (maxFileSize : UInt64) (path : List String) (bytes : ByteArray) : FoundFile :=
  if bytes.size > maxFileSize.toNat then .skipped (pathText path) .largeFile
  else
    match String.fromUTF8? bytes with
    | some content =>
      if content.toList.contains '\x00' then .skipped (pathText path) .binaryFile
      else .text (pathText path) content
    | none => .skipped (pathText path) .binaryFile

/-! ## Walking -/

/-- What a walk goes by, wherever it is: the root without links, and what is left out below. -/
structure Walk where
  tree : FileTree
  root : List String
  exclusion : Exclusion
  maxFileSize : UInt64

/-- Whether the walk passes by an entry, and by all below it. -/
def Walk.passesBy (w : Walk) (levels : IgnoreLevels) (path : List String) (isDirectory : Bool) :
    Bool :=
  levels.ignores (w.root ++ path) isDirectory || w.exclusion.excludes path

mutual

def filesAt (w : Walk) (levels : IgnoreLevels) (path : List String) :
    FileTree → List FoundFile
  | .file bytes =>
    if w.passesBy levels path false then [] else [examine w.maxFileSize path bytes]
  | .link _ => []
  | .directory entries =>
    if w.passesBy levels path true then []
    else filesIn w (levels.enter w.tree (w.root ++ path)) path entries

def filesIn (w : Walk) (levels : IgnoreLevels) (directory : List String) :
    List (String × FileTree) → List FoundFile
  | [] => []
  | (name, node) :: rest =>
    filesAt w levels (directory ++ [name]) node ++ filesIn w levels directory rest

end

/-- The files below the root. A root that is a file itself is found under the empty path; a link
to a file is not. -/
def find (l : Loader) (exclusion : Exclusion) : List FoundFile :=
  let tree := l.disk.tree
  match tree.canonical? l.root, tree.follow? l.root with
  | some root, some (.directory entries) =>
    filesIn { tree, root, exclusion, maxFileSize := l.maxFileSize }
      (.within l.disk l.personal root) [] entries
  | _, some (.file bytes) =>
    if (tree.entry? l.root).any (·.isFile) then [examine l.maxFileSize [] bytes] else []
  | _, _ => []

/-! ## Reports -/

def textOf? : FoundFile → Option (String × String)
  | .text path content => some (path, content)
  | .skipped _ _ => none

def skippedOf? : FoundFile → Option (String × SkipReason)
  | .text _ _ => none
  | .skipped path reason => some (path, reason)

def sortByPath (entries : List (String × α)) : List (String × α) :=
  entries.mergeSort fun a b => a.1 ≤ b.1

/-- The report on files, in whatever order they were found. -/
def report (rootText : String) (found : List FoundFile) : Except LoadError LoadReport :=
  match Project.ofFiles (sortByPath (found.filterMap textOf?)) with
  | .ok project => .ok { project, skipped := sortByPath (found.filterMap skippedOf?) }
  | .error e => .error (.badProject rootText e)

def load (l : Loader) : Except LoadError LoadReport := do
  let exclusion ← Exclusion.load l.disk.tree l.root l.config
  report l.rootText (l.find exclusion)

end Loader

end SourceEdit
