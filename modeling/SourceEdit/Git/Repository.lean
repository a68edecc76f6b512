import SourceEdit.Git.Address
import SourceEdit.Git.Objects
import SourceEdit.Git.Settings
import SourceEdit.Manifest

/-!
# Repositories

The repository around a directory says where the content of the directory comes from: the address
of its origin, the branch that is checked out and the commit at the head of the branch.
-/

namespace SourceEdit.Git

structure Repository where
  place : Place
  settings : List Setting

namespace Repository

/-! ## Finding a repository -/

def trimmedText? (tree : FileTree) (path : List String) : Option String :=
  match tree.text? path with
  | some (.ok text) => some (String.ofList (Text.dropEndWhile Text.isBlank text.toList))
  | _ => none

def relativeTo (directory : List String) (text : String) : Option (List String) :=
  if text.isEmpty || text.startsWith "/" then none else some (directory ++ pathNames text)

/-- The directory to which a file refers that stands in for a repository. -/
def referredTo? (tree : FileTree) (path : List String) : Option (List String) := do
  let text ← trimmedText? tree path
  match text.toList with
  | 'g' :: 'i' :: 't' :: 'd' :: 'i' :: 'r' :: ':' :: ' ' :: cs =>
    relativeTo path.dropLast (String.ofList cs)
  | _ => none

/-- The place of a repository with a directory of its own. What it shares may be elsewhere. -/
def placeOf (tree : FileTree) (own : List String) : Place where
  own
  shared := ((trimmedText? tree (own ++ ["commondir"])).bind (relativeTo own)).getD own

/-- Whether a place holds a repository: a readable head, objects and references. -/
def isRepository (tree : FileTree) (place : Place) : Bool :=
  ((Reference.loose? tree place "HEAD").bind id).isSome &&
    tree.leadsToDirectory (place.shared ++ ["objects"]) &&
    tree.leadsToDirectory (place.shared ++ ["refs"])

/-- The repository at a path, which may be a directory or a file that refers to one. -/
def at? (tree : FileTree) (path : List String) : Option Place := do
  let own ← match ← tree.follow? path with
    | .file _ => referredTo? tree path
    | _ => some path
  let place := placeOf tree own
  if isRepository tree place then some place else none

def withoutDots (path : List String) : List String :=
  path.foldl (fun done name => if name = ".." then done.dropLast else done ++ [name]) []

/-- The nearest repository around a directory: the directory itself, one in it, or one around. -/
def discover? (tree : FileTree) (start : List String) : Option Place :=
  if tree.leadsToDirectory start then
    (ancestors (withoutDots start)).findSome? fun d => at? tree d <|> at? tree (d ++ [".git"])
  else none

/-! ## Settings -/

/-- The settings in a file: none that cannot be read, and no settings if there is no file. -/
def settingsIn? (tree : FileTree) (path : List String) : Option (List Setting) :=
  match tree.text? path with
  | none | some (.error .isDirectory) => some []
  | some (.error .notText) => none
  | some (.ok text) => Settings.ofText? text

/-- Opens the repository around a directory. The settings of the user come before its own. -/
def open? (tree : FileTree) (home configDirectory start : List String) : Option Repository := do
  let place ← discover? tree start
  let general ← settingsIn? tree (configDirectory ++ ["git", "config"])
  let personal ← settingsIn? tree (home ++ [".gitconfig"])
  let own ← settingsIn? tree (place.shared ++ ["config"])
  return { place, settings := general ++ personal ++ own }

/-- What settings say that an address starts with instead: the longest start that counts. -/
def redirected? (settings : List Setting) (address : String) : Option String :=
  let rules := settings.filterMap fun s =>
    match s.group, s.key, s.subsection, s.value with
    | "url", "insteadof", some start, some instead =>
      if address.startsWith instead then some (instead.length, start) else none
    | _, _, _, _ => none
  let best := rules.foldl
    (fun best rule => match best with
      | none => some rule
      | some b => if rule.1 > b.1 then some rule else some b) none
  best.map fun (n, start) => start ++ String.ofList (address.toList.drop n)

/-- The address from which the repository takes its content. -/
def origin? (r : Repository) : Option String := do
  let given ← Settings.last? r.settings "remote" (some "origin") "url"
  let address ← Address.common? given
  match redirected? r.settings address with
  | some other => Address.common? other
  | none => return address

/-! ## The head -/

def headName? (r : Repository) (tree : FileTree) : Option String := do
  match ← (← Reference.loose? tree r.place "HEAD") with
  | .reference name => some name
  | .object _ => none

/-- The identifier of the object at a reference, behind all tags. -/
def objectAt? (r : Repository) (tree : FileTree) (name : String) : Option String := do
  let found ← Reference.find? tree r.place name
  match ← Reference.follow? tree r.place Reference.depthLimit found with
  | { behind := some id, .. } => some id
  | { target := .object id, .. } => Object.peel? tree r.place Object.tagLimit id
  | _ => none

def shownDigits : Nat := 7

/-- Where the content around a directory comes from, if all of it is known. -/
def provenance? (tree : FileTree) (home configDirectory start : List String) :
    Option Provenance := do
  let r ← open? tree home configDirectory start
  let name ← r.headName? tree
  let id ← r.objectAt? tree name
  let repo ← r.origin?
  return {
    repo
    branch := Reference.shortName name
    sha := String.ofList (id.toList.take shownDigits) }

end Repository

end SourceEdit.Git
