import SourceEdit.FileTree
import SourceEdit.Ignore.Rule

/-!
# Levels of ignore rules

Every directory from the root of the disk down to an entry is a level with rules of its own. The
rules in `.ignore` files come first, those of inner levels before those of outer ones. Inside a
repository, the rules in `.gitignore` files follow, up to the level that holds the repository;
then those that the repository excludes, then the personal ones of the user.
-/

namespace SourceEdit

structure IgnoreLevel where
  /-- How many names lead to the directory. -/
  depth : Nat
  ignoreFile : IgnoreRules
  gitignoreFile : IgnoreRules
  excluded : IgnoreRules
  holdsRepository : Bool

/-- The levels around an entry, the innermost first, and the personal rules. -/
structure IgnoreLevels where
  levels : List IgnoreLevel
  personal : IgnoreRules
  /-- The text of the path to the root of the disk. -/
  base : String

def FileTree.rulesAt (tree : FileTree) (path : List String) : IgnoreRules :=
  match tree.bytes? path with
  | some bytes => .ofBytes bytes
  | none => {}

namespace IgnoreLevel

/-- The level of a directory. A repository that is only referred to by a file excludes nothing. -/
def ofDirectory (tree : FileTree) (directory : List String) : IgnoreLevel :=
  let repository := directory ++ [".git"]
  { depth := directory.length
    ignoreFile := tree.rulesAt (directory ++ [".ignore"])
    gitignoreFile := tree.rulesAt (directory ++ [".gitignore"])
    excluded :=
      if tree.leadsToDirectory repository then tree.rulesAt (repository ++ ["info", "exclude"])
      else {}
    holdsRepository := tree.leadsSomewhere repository }

def relative (l : IgnoreLevel) (path : List String) : String :=
  pathText (path.drop l.depth)

end IgnoreLevel

namespace IgnoreLevels

/-- The levels up to the one that holds the repository. -/
def ofRepository : List IgnoreLevel → List IgnoreLevel
  | [] => []
  | l :: ls => if l.holdsRepository then [l] else l :: ofRepository ls

/-- What the rules of the repository around an entry say about it. -/
def repositoryVerdict? (ls : IgnoreLevels) (path : List String) (isDirectory : Bool) :
    Option Verdict :=
  if ls.levels.any (·.holdsRepository) then
    let inside := ofRepository ls.levels
    inside.findSome? (fun l => l.gitignoreFile.verdict? (l.relative path) isDirectory) <|>
      inside.findSome? (fun l => l.excluded.verdict? (l.relative path) isDirectory) <|>
      ls.personal.verdict? (ls.base ++ "/" ++ pathText path) isDirectory
  else none

def verdict? (ls : IgnoreLevels) (path : List String) (isDirectory : Bool) : Option Verdict :=
  ls.levels.findSome? (fun l => l.ignoreFile.verdict? (l.relative path) isDirectory) <|>
    ls.repositoryVerdict? path isDirectory

def ignores (ls : IgnoreLevels) (path : List String) (isDirectory : Bool) : Bool :=
  ls.verdict? path isDirectory == some .ignore

def enter (ls : IgnoreLevels) (tree : FileTree) (directory : List String) : IgnoreLevels :=
  { ls with levels := .ofDirectory tree directory :: ls.levels }

/-- The levels inside a directory, from the root of the disk. -/
def within (disk : Disk) (personal : IgnoreRules) (directory : List String) : IgnoreLevels where
  levels := (ancestors directory).map (.ofDirectory disk.tree)
  personal
  base := disk.base

end IgnoreLevels

end SourceEdit
