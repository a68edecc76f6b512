import SourceEdit.FileTree

/-!
# References

A reference has a name and refers to an object by its identifier, or to another reference by its
name. References are kept in files of their own, or many of them in one packed file.
-/

namespace SourceEdit.Git

/-- Where a repository keeps what: its own directory, and the one that it shares with others. -/
structure Place where
  own : List String
  shared : List String
  deriving Repr, DecidableEq, Inhabited

inductive Target where
  | object (id : String)
  | reference (name : String)
  deriving Repr, DecidableEq

namespace Reference

def idLength : Nat := 40

def isIdDigit (c : Char) : Bool := c.isDigit || ('a' ≤ c && c ≤ 'f')

def id? (cs : List Char) : Option String :=
  let id := cs.take idLength
  if id.length = idLength && id.all isIdDigit then some (String.ofList id) else none

/-! ## Names -/

def isNameChar (c : Char) : Bool :=
  c.toNat > 32 && c.toNat != 127 && !"\\^:[?~*".toList.contains c

/-- A part of a name between slashes: not empty, no dot at its start, no lock. -/
def isNamePart (part : List Char) : Bool :=
  !part.isEmpty && part.head? != some '.' && !(".lock".toList.isSuffixOf part)

def hasPair (a b : Char) : List Char → Bool
  | x :: y :: rest => (x == a && y == b) || hasPair a b (y :: rest)
  | _ => false

/-- Whether a text can be a full name. One without slashes is in capitals. -/
def isName (name : List Char) : Bool :=
  let parts := Text.fields '/' name
  name.all isNameChar && parts.all isNamePart && !hasPair '.' '.' name &&
    !hasPair '@' '\x7b' name && name.getLast? != some '.' &&
    (parts.length > 1 || name.all fun c => c.isUpper || c == '_')

/-- The kinds of references whose short names go without the kind. -/
def branchKinds : List String := ["refs/tags/", "refs/heads/", "refs/remotes/"]

/-- The kinds of references that belong to one checkout. -/
def privateKinds : List String := ["refs/bisect/", "refs/worktree/", "refs/rewritten/"]

/-- The kinds of references whose short names go without the first part only. -/
def specialKinds : List String := "refs/notes/" :: privateKinds

def shortName (name : String) : String :=
  match branchKinds.find? fun kind => name.startsWith kind with
  | some kind => String.ofList (name.toList.drop kind.length)
  | none =>
    if specialKinds.any fun kind => name.startsWith kind then
      String.ofList (name.toList.drop "refs/".length)
    else name

/-- The directory that holds a reference: private ones are not shared. -/
def directory (place : Place) (name : String) : List String :=
  let isPrivate :=
    !name.startsWith "refs/" || privateKinds.any fun kind => name.startsWith kind
  if isPrivate then place.own else place.shared

/-! ## Files -/

/-- Reads the file of a reference: a name after a mark, or an identifier. -/
def target? (text : String) : Option Target :=
  match text.toList with
  | 'r' :: 'e' :: 'f' :: ':' :: ' ' :: cs =>
    let name := (cs.dropWhile (· == ' ')).takeWhile fun c => c != '\r' && c != '\n'
    if isName name then some (.reference (String.ofList name)) else none
  | cs => (id? cs).map .object

/-- The target of a reference with a file of its own: none if there is no file, and nothing inside
if the file is no reference. -/
def loose? (tree : FileTree) (place : Place) (name : String) : Option (Option Target) :=
  match tree.text? (directory place name ++ pathNames name) with
  | some (.ok text) => some (target? text)
  | some (.error .notText) => some none
  | _ => none

/-- What the packed file says of a reference: its object, and the object behind it if that is
known. -/
structure Packed where
  id : String
  behind : Option String
  deriving Repr, DecidableEq

def packedIn? (name : String) : List String → Option Packed
  | [] => none
  | line :: rest =>
    match id? line.toList with
    | none => packedIn? name rest
    | some id =>
      if line.toList.drop idLength = ' ' :: name.toList then
        let behind := rest.head?.bind fun next =>
          match next.toList with
          | '^' :: cs => id? cs
          | _ => none
        some { id, behind }
      else packedIn? name rest

def lines (text : String) : List String :=
  (Text.fields '\n' text.toList).map fun l =>
    String.ofList (if l.getLast? = some '\r' then l.dropLast else l)

def packed? (tree : FileTree) (place : Place) (name : String) : Option Packed :=
  match tree.text? (place.shared ++ ["packed-refs"]) with
  | some (.ok text) => packedIn? name (lines text)
  | _ => none

/-- A reference as it is found: its target, and the object behind it if that is known. -/
structure Found where
  target : Target
  behind : Option String := none

/-- Looks a reference up, in its own file first. -/
def find? (tree : FileTree) (place : Place) (name : String) : Option Found :=
  match loose? tree place name with
  | some target => target.map fun target => { target }
  | none => (packed? tree place name).map fun p => { target := .object p.id, behind := p.behind }

/-- How many references may stand between a name and an object. -/
def depthLimit : Nat := 4

def follow? (tree : FileTree) (place : Place) : Nat → Found → Option Found
  | fuel, found =>
    match found.target with
    | .object _ => some found
    | .reference name =>
      match fuel with
      | 0 => none
      | fuel + 1 => (find? tree place name).bind (follow? tree place fuel)

end Reference

end SourceEdit.Git
