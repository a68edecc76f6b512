import SourceEdit.Manifest.Coordinate
import SourceEdit.Manifest.Version

/-!
# Manifests

The manifest of an archive says what it is, what it needs and where it comes from. It is valid if
group and artifact are given, and version and required version are versions or ranges.
-/

namespace SourceEdit

structure Provenance where
  repo : String
  branch : String
  sha : String
  deriving Repr, DecidableEq, Inhabited

structure Repository where
  id : String
  url : Option String
  deriving Repr, DecidableEq, Inhabited

/-- Names left out of the archive, by kind. -/
structure Excludes where
  editors : List String := []
  generators : List String := []
  reviewers : List String := []
  commandHandlers : List String := []
  eventHandlers : List String := []
  responseHandlers : List String := []
  deriving Repr, DecidableEq, Inhabited

namespace Excludes

def append (a b : Excludes) : Excludes where
  editors := a.editors ++ b.editors
  generators := a.generators ++ b.generators
  reviewers := a.reviewers ++ b.reviewers
  commandHandlers := a.commandHandlers ++ b.commandHandlers
  eventHandlers := a.eventHandlers ++ b.eventHandlers
  responseHandlers := a.responseHandlers ++ b.responseHandlers

def isEmpty (e : Excludes) : Bool := e == {}

end Excludes

structure Manifest where
  group : String := ""
  artifact : String := ""
  version : Option String := none
  /-- The versions of the runtime that the archive works with, without spaces. -/
  requires : Option String := none
  dependencies : List Coordinate := []
  extensions : List Coordinate := []
  repositories : List Repository := []
  excludes : Excludes := {}
  provenance : Option Provenance := none
  deriving Repr, DecidableEq, Inhabited

inductive ManifestError where
  | missing
  | malformed
  | invalidCoordinate (text : String)
  | empty (key : String)
  | invalidVersion (key value : String)
  deriving Repr, DecidableEq

def ManifestError.message : ManifestError → String
  | .missing => "manifest.yml could not be found in .atomist"
  | .malformed => "manifest.yml file in .atomist is malformed"
  | .invalidCoordinate text =>
    "'" ++ text ++ "' is not a coordinate of the form group:artifact:version"
  | .empty key =>
    key ++ " should not be empty, please correct " ++ key ++ " in manifest.yml"
  | .invalidVersion key value =>
    "'" ++ value ++ "' is not a valid version or version range for " ++ key

namespace Manifest

/-- The coordinate of the archive itself, once its version is known. -/
def coordinate (m : Manifest) : Option Coordinate :=
  m.version.map fun v => ⟨m.group, m.artifact, v⟩

def checkVersion (key : String) : Option String → Except ManifestError Unit
  | none => .error (.empty key)
  | some value =>
    if Version.isVersionOrRange value then .ok () else .error (.invalidVersion key value)

/-- Checks group, artifact, version and required version, in this order. -/
def validate (m : Manifest) : Except ManifestError Unit := do
  if (Text.trim m.group.toList).isEmpty then throw (.empty "group")
  if (Text.trim m.artifact.toList).isEmpty then throw (.empty "artifact")
  checkVersion "version" m.version
  checkVersion "requires" m.requires

end Manifest

end SourceEdit
