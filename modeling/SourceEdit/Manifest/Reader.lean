import SourceEdit.Dict
import SourceEdit.Manifest
import SourceEdit.Project
import SourceEdit.Yaml.Node.Reader
import SourceEdit.Yaml.Scalar

/-!
# Reading manifests

A manifest is the sum of the documents of a YAML text: what a later document says about a single
value replaces what an earlier one said, and lists are appended to one another. Names and versions
that YAML reads as numbers or truth values count as the text in which those are shown.
-/

namespace SourceEdit

open Yaml (Document Node Meaning Style)

namespace Manifest

/-! ## Values of nodes -/

def nullTag : String := "tag:yaml.org,2002:null"
def boolTag : String := "tag:yaml.org,2002:bool"
def intTag : String := "tag:yaml.org,2002:int"
def floatTag : String := "tag:yaml.org,2002:float"

/-- The text in which a single value is shown; null has none. -/
def shown? (raw : String) : Meaning → Option String
  | .null => none
  | .flag b => some (if b then "true" else "false")
  | .integer n => some (toString n)
  | .wideInteger => none
  | .real r => some r.render
  | .text => some raw

/-- The meaning of a scalar under its tag. Tags of an application's own make it unusable. -/
def scalarMeaning? (tag : Option String) (style : Style) (text : String) : Option Meaning :=
  match tag with
  | none => some (if style == .plain then Yaml.meaning text else .text)
  | some tag =>
    if tag.startsWith "!" then none
    else if tag == boolTag then (Yaml.flag? text).map .flag
    else if tag == intTag then
      match Yaml.meaning text with
      | .integer n => some (.integer n)
      | _ => none
    else if tag == floatTag then (Yaml.real? text.toList).map .real
    else if tag == nullTag then if Yaml.isNull text then some .null else none
    else some .text

def value? (d : Document) (n : Node) : Option String :=
  match d.deref n with
  | .scalar props style text => do shown? text (← scalarMeaning? props.tag style text)
  | _ => none

/-- The text of a scalar as it was written. -/
def text? (d : Document) (n : Node) : Option String :=
  match d.deref n with
  | .scalar _ _ text => some text
  | _ => none

/-- The text of a node whose meaning is text. -/
def textOnly? (d : Document) (n : Node) : Option String :=
  match d.deref n with
  | .scalar props style text =>
    if scalarMeaning? props.tag style text == some .text then some text else none
  | _ => none

/-- Whether a node counts as absent; fails where a null tag stands on something else. -/
def isAbsent? (d : Document) (n : Node) : Option Bool :=
  match d.deref n with
  | .scalar props .plain text =>
    match props.tag with
    | none => some (text.isEmpty || Yaml.isNull text)
    | some tag =>
      if tag == nullTag then if Yaml.isNull text then some true else none else some false
  | _ => some false

def optional? (read : Node → Option α) (d : Document) (n : Node) : Option (Option α) := do
  if ← isAbsent? d n then some none else (read n).map some

/-- The items of a sequence; an empty plain scalar has none. -/
def items? (d : Document) (n : Node) : Option (List Node) :=
  match d.deref n with
  | .sequence _ items => some items
  | .scalar _ .plain "" => some []
  | _ => none

/-- The entries of a mapping; an empty plain scalar has none. -/
def entries? (d : Document) (n : Node) : Option (List (Node × Node)) :=
  match d.deref n with
  | .mapping _ entries => some entries
  | .scalar _ .plain "" => some []
  | _ => none

def namedEntries? (d : Document) (n : Node) : Option (List (String × Node)) := do
  (← entries? d n).mapM fun (k, v) => do some (← text? d k, v)

/-- The entry of a record under a name; fails if the name stands there twice. -/
def field? (es : List (String × Node)) (name : String) : Option (Option Node) :=
  match es.filter (·.1 == name) with
  | [] => some none
  | [(_, n)] => some (some n)
  | _ => none

/-! ## Documents -/

structure Part where
  group : Option String := none
  artifact : Option String := none
  version : Option String := none
  requires : Option String := none
  /-- Texts that have yet to be read as coordinates. -/
  dependencies : List String := []
  extensions : List String := []
  repositories : List Repository := []
  excludes : Excludes := {}
  repo : Option String := none
  branch : Option String := none
  sha : Option String := none

/-- The texts of coordinates that an entry of a list stands for: itself, or for a mapping, each
key followed by its version. -/
def coordinateTexts? (d : Document) (n : Node) : Option (List String) :=
  match d.deref n with
  | .mapping props entries => do
    if props.tag.any (·.startsWith "!") then none
    let pairs ← entries.mapM fun (k, v) => do some (← textOnly? d k, ← value? d v)
    some ((Dict.ofList pairs).entries.map fun (k, v) => k ++ ":" ++ v)
  | n => (textOnly? d n).map ([·])

def coordinateList? (d : Document) (n : Node) : Option (List String) := do
  let texts ← (← items? d n).mapM (coordinateTexts? d)
  some texts.flatten

def repositoryUrl? (d : Document) (n : Node) : Option (Option String) := do
  let es ← namedEntries? d n
  match ← field? es "url" with
  | none => some none
  | some n => optional? (text? d) d n

def repositories? (d : Document) (n : Node) : Option (List Repository) := do
  let pairs ← (← namedEntries? d n).mapM fun (id, n) => do
    let url ← optional? (repositoryUrl? d) d n
    some (id, url.join)
  some ((Dict.ofList pairs).entries.map fun (id, url) => { id, url })

def textList? (d : Document) (es : List (String × Node)) (name : String) :
    Option (List String) := do
  match ← field? es name with
  | none => some []
  | some n => (← items? d n).mapM (text? d)

def excludes? (d : Document) (n : Node) : Option Excludes := do
  let es ← namedEntries? d n
  some {
    editors := ← textList? d es "editors"
    generators := ← textList? d es "generators"
    reviewers := ← textList? d es "reviewers"
    commandHandlers := ← textList? d es "command_handlers"
    eventHandlers := ← textList? d es "event_handlers"
    responseHandlers := ← textList? d es "response_handlers" }

/-- Reads the record of a document. Entries under unknown names do not count. -/
def part? (d : Document) (n : Node) : Option Part := do
  let es ← namedEntries? d n
  let read := fun {α : Type} (name : String) (read : Node → Option α) =>
    show Option (Option α) from do
      match ← field? es name with
      | none => some none
      | some n => optional? read d n
  some {
    group := ← read "group" (value? d)
    artifact := ← read "artifact" (value? d)
    version := ← read "version" (value? d)
    requires := ← read "requires" (value? d)
    dependencies := (← read "dependencies" (coordinateList? d)).getD []
    extensions := (← read "extensions" (coordinateList? d)).getD []
    repositories := (← read "repositories" (repositories? d)).getD []
    excludes := (← read "excludes" (excludes? d)).getD {}
    repo := ← read "repo" (value? d)
    branch := ← read "branch" (value? d)
    sha := ← read "sha" (value? d) }

/-- The part that a document adds, or none for a document that is empty or null. -/
def partOf? (d : Document) : Option (Option Part) :=
  match d.root with
  | none => some none
  | some root => optional? (part? d) d root

/-! ## The sum -/

def coordinates (texts : List String) : Except ManifestError (List Coordinate) :=
  texts.mapM fun t =>
    match Coordinate.ofString? t with
    | some c => .ok c
    | none => .error (.invalidCoordinate t)

/-- Where a part says that the content comes from, if it says so completely. -/
def Part.provenance (p : Part) : Option Provenance := do
  some ⟨← p.repo, ← p.branch, ← p.sha⟩

def withoutSpaces (s : String) : String :=
  String.ofList (s.toList.filter (· != ' '))

def addPart (m : Manifest) (p : Part) : Except ManifestError Manifest := do
  let dependencies ← coordinates p.dependencies
  let extensions ← coordinates p.extensions
  return {
    group := p.group.getD m.group
    artifact := p.artifact.getD m.artifact
    version := p.version <|> m.version
    requires := p.requires.map withoutSpaces <|> m.requires
    dependencies := m.dependencies ++ dependencies
    extensions := m.extensions ++ extensions
    repositories := m.repositories ++ p.repositories
    excludes := m.excludes.append p.excludes
    provenance := p.provenance <|> m.provenance }

/-- Adds a document, which may have been unreadable. -/
def addDocument (m : Manifest) : Option Document → Except ManifestError Manifest
  | none => .error .malformed
  | some d =>
    match partOf? d with
    | none => .error .malformed
    | some none => .ok m
    | some (some p) => m.addPart p

/-- Reads a manifest, without validating it. -/
def ofText (text : String) : Except ManifestError Manifest :=
  (Yaml.documents text.toList).foldlM addDocument {}

def path : String := ".atomist/manifest.yml"

def ofProject (p : Project) : Except ManifestError Manifest :=
  match p.find? path with
  | none => .error .missing
  | some file => do
    let m ← ofText file.content
    m.validate
    return m

end Manifest

end SourceEdit
