import SourceEdit.Catalog
import SourceEdit.Data
import SourceEdit.Text.Blank

/-!
# Configuration

A configuration has limits for the files that are read, lists of what is left out, and named
patterns. Configurations are layers: what an upper one sets counts, and what it leaves open is
taken from below. The lists of ignored paths and globs are joined.
-/

namespace SourceEdit

/-- Settings for files. A layer may leave them open. -/
structure Defaults where
  maxFileSize? : Option UInt64 := none
  showHidden? : Option Bool := none
  deriving Repr, DecidableEq, Inhabited

structure IgnoreLists where
  paths : List String
  globs : List String
  deriving Repr, DecidableEq, Inhabited

structure Config where
  defaults : Defaults
  ignore : IgnoreLists
  patterns : Dict String
  deriving Inhabited

namespace Defaults

def builtinMaxFileSize : UInt64 := 1048576

def maxFileSize (d : Defaults) : UInt64 := d.maxFileSize?.getD builtinMaxFileSize

def showHidden (d : Defaults) : Bool := d.showHidden?.getD false

def overlay (lower upper : Defaults) : Defaults where
  maxFileSize? := upper.maxFileSize? <|> lower.maxFileSize?
  showHidden? := upper.showHidden? <|> lower.showHidden?

end Defaults

namespace IgnoreLists

def builtin : IgnoreLists where
  paths := ["target/", "node_modules/", ".git/"]
  globs := ["*.lock"]

/-- The entries of both, each once, in ascending order. -/
def union (a b : IgnoreLists) : IgnoreLists where
  paths := sortedTexts (a.paths ++ b.paths)
  globs := sortedTexts (a.globs ++ b.globs)

end IgnoreLists

namespace Config

/-- The configuration that says nothing. What is ignored without a say is the built-in list. -/
def empty : Config where
  defaults := {}
  ignore := .builtin
  patterns := ∅

def builtin : Config where
  defaults := { maxFileSize? := some Defaults.builtinMaxFileSize, showHidden? := some false }
  ignore := .builtin
  patterns := Catalog.builtinPatterns

/-- The patterns that can be referred to: the built-in ones under those of the configuration. -/
def catalog (c : Config) : Catalog :=
  ⟨Catalog.builtinPatterns.overlay c.patterns⟩

/-! ## Layers -/

def overlay (lower upper : Config) : Config where
  defaults := lower.defaults.overlay upper.defaults
  ignore := lower.ignore.union upper.ignore
  patterns := lower.patterns.overlay upper.patterns

/-- A number as the environment gives it: decimal digits that fit a word, after an optional plus
sign. -/
def sizeOfText? (text : String) : Option UInt64 :=
  let cs := Text.trim text.toList
  let digits := if cs.head? = some '+' then cs.tail else cs
  if digits.isEmpty || !digits.all Char.isDigit then none
  else
    let n := digits.foldl (fun n d => n * 10 + (d.toNat - '0'.toNat)) 0
    if n < UInt64.size then some (UInt64.ofNat n) else none

def flagOfText? (text : String) : Option Bool :=
  match String.ofList (Text.trim text.toList) with
  | "true" => some true
  | "false" => some false
  | _ => none

/-- What the environment sets. A value that cannot be read is as good as none. -/
def environment (maxFileSize showHidden : Option String) : Defaults where
  maxFileSize? := maxFileSize.bind sizeOfText?
  showHidden? := showHidden.bind flagOfText?

/-- The configuration that results from the layers of a user and a workspace, if they exist, over
the built-in one, and from the environment, which has the last word. -/
def layered (layers : List Config) (env : Defaults) : Config :=
  let merged := layers.foldl overlay builtin
  { merged with defaults := merged.defaults.overlay env }

/-! ## As plain data -/

def defaultsOf? (surplus : Data.Surplus) (d : Data) : Option Defaults := do
  let member ← d.members? surplus ["max_file_size", "show_hidden"]
  let maxFileSize? ← Data.optional? Data.word? (member "max_file_size")
  let showHidden? ← Data.optional? Data.boolean? (member "show_hidden")
  return { maxFileSize?, showHidden? }

/-- Reads the lists. One that is missing is empty. -/
def ignoreOf? (surplus : Data.Surplus) (d : Data) : Option IgnoreLists := do
  let member ← d.members? surplus ["paths", "globs"]
  let paths ← Data.orElse? [] Data.texts? (member "paths")
  let globs ← Data.orElse? [] Data.texts? (member "globs")
  return { paths, globs }

/-- Reads a configuration. A part that is missing says nothing. -/
def ofData? (surplus : Data.Surplus) (d : Data) : Option Config := do
  let member ← d.members? surplus ["defaults", "ignore", "patterns"]
  let defaults ← Data.orElse? {} (defaultsOf? surplus) (member "defaults")
  let ignore ← Data.orElse? .builtin (ignoreOf? surplus) (member "ignore")
  let patterns ← Data.orElse? ∅ (fun d => d.textFields?.map Dict.ofList) (member "patterns")
  return { defaults, ignore, patterns }

def defaultsToData (d : Defaults) : Data :=
  .record ((d.maxFileSize?.map fun n => ("max_file_size", Data.integer n.toNat)).toList ++
    (d.showHidden?.map fun b => ("show_hidden", Data.boolean b)).toList)

def ignoreToData (i : IgnoreLists) : Data :=
  .record [("paths", .list (i.paths.map .text)), ("globs", .list (i.globs.map .text))]

/-- The configuration as data. Settings that are left open do not appear. -/
def toData (c : Config) : Data :=
  .record [
    ("defaults", defaultsToData c.defaults),
    ("ignore", ignoreToData c.ignore),
    ("patterns", .record (c.patterns.entries.map fun (name, text) => (name, .text text)))]

end Config

end SourceEdit
