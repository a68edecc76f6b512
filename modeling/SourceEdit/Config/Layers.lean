import SourceEdit.Config
import SourceEdit.FileTree
import SourceEdit.Toml

/-!
# Layers of configuration on a disk

The configuration for a place is made up of the built-in layer, the file of the user, the file of
the workspace around the place, and the environment. A file that does not exist is no layer.
-/

namespace SourceEdit

inductive ConfigError where
  | unreadable (path : String) (fault : ReadFault)
  /-- A file is no TOML, or its data are no configuration. -/
  | malformed
  deriving Repr, DecidableEq

namespace ConfigError

def message : ConfigError → String
  | .unreadable path _ => "failed to read config file: " ++ path
  | .malformed => "failed to parse TOML config"

def cause? : ConfigError → Option String
  | .unreadable _ fault => some fault.message
  | .malformed => none

end ConfigError

/-- What surrounds a run of the program: the home directory of the user, the directory of
configurations if there is a special one, and the settings in the environment. -/
structure Surroundings where
  home : List String
  configHome? : Option (List String) := none
  maxFileSize? : Option String := none
  showHidden? : Option String := none
  deriving Repr, Inhabited

def Surroundings.configDirectory (s : Surroundings) : List String :=
  s.configHome?.getD (s.home ++ [".config"])

namespace Config

def ofText? (text : String) : Option Config := do
  ofData? .ignored (← Toml.read? text)

/-- The configuration in a file as a layer, if the file exists. -/
def layer (disk : Disk) (path : List String) : Except ConfigError (List Config) :=
  match disk.tree.text? path with
  | none => .ok []
  | some (.error fault) => .error (.unreadable (disk.fullText (pathText path)) fault)
  | some (.ok text) =>
    match ofText? text with
    | some config => .ok [config]
    | none => .error .malformed

/-- The root of the workspace around a place: the nearest directory with a repository in it, or
the place itself. -/
def workspaceRoot (tree : FileTree) (start : List String) : List String :=
  ((ancestors start).find? fun p => tree.leadsSomewhere (p ++ [".git"])).getD start

def userFile (s : Surroundings) : List String :=
  s.configDirectory ++ ["projedit", "config.toml"]

def workspaceFile (tree : FileTree) (start : List String) : List String :=
  workspaceRoot tree start ++ [".projedit", "config.toml"]

def load (disk : Disk) (surroundings : Surroundings) (start : List String) :
    Except ConfigError Config := do
  let user ← layer disk (userFile surroundings)
  let workspace ← layer disk (workspaceFile disk.tree start)
  return layered (user ++ workspace)
    (environment surroundings.maxFileSize? surroundings.showHidden?)

end Config

end SourceEdit
