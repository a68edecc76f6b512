import SourceEdit.Text.Fields

/-!
# File trees

Directories, files and symbolic links under names. A path is a list of names from the root of a
tree. To follow a path means to go through the links on it, up to a limit; a path that leaves the
tree leads nowhere.
-/

namespace SourceEdit

/-- What stands under a name. The names in a directory are distinct. -/
inductive FileTree where
  | file (bytes : ByteArray)
  | link (target : String)
  | directory (entries : List (String × FileTree))
  deriving Inhabited

inductive ReadFault where
  | isDirectory
  | notText
  deriving Repr, DecidableEq

def ReadFault.message : ReadFault → String
  | .isDirectory => "Is a directory (os error 21)"
  | .notText => "stream did not contain valid UTF-8"

/-- The names on a path. Empty ones and single dots say nothing. -/
def pathNames (text : String) : List String :=
  ((Text.fields '/' text.toList).map String.ofList).filter fun n => n != "" && n != "."

def pathText (names : List String) : String :=
  "/".intercalate names

/-- A path and all that it lies in, from the inside out. -/
def ancestors (path : List String) : List (List String) :=
  (List.range (path.length + 1)).reverse.map path.take

namespace FileTree

def empty : FileTree := .directory []

def isDirectory : FileTree → Bool
  | .directory _ => true
  | _ => false

def isFile : FileTree → Bool
  | .file _ => true
  | _ => false

/-! ## Looking up -/

def child? (name : String) : FileTree → Option FileTree
  | .directory entries => entries.lookup name
  | _ => none

/-- What stands at a path that does not lead through links. -/
def at? (t : FileTree) (path : List String) : Option FileTree :=
  path.foldlM (fun node name => node.child? name) t

def linkLimit : Nat := 40

/-- The path without links to which a path leads, from a directory. -/
def canonicalFrom? (root : FileTree) (links : Nat) (start : List String) :
    List String → Option (List String)
  | [] => some start
  | name :: rest =>
    if name = "." then canonicalFrom? root links start rest
    else if name = ".." then
      if start.isEmpty then none else canonicalFrom? root links start.dropLast rest
    else
      let here := start ++ [name]
      match root.at? here with
      | none => none
      | some (.directory _) => canonicalFrom? root links here rest
      | some (.file _) => if rest.isEmpty then some here else none
      | some (.link target) =>
        match links with
        | 0 => none
        | links + 1 =>
          if target.startsWith "/" then none
          else canonicalFrom? root links start (pathNames target ++ rest)
termination_by todo => (links, todo.length)

def canonical? (t : FileTree) (path : List String) : Option (List String) :=
  canonicalFrom? t linkLimit [] path

/-- The file or directory to which a path leads. -/
def follow? (t : FileTree) (path : List String) : Option FileTree := do
  t.at? (← t.canonical? path)

/-- What stands at a path; a link at its end is not followed. -/
def entry? (t : FileTree) (path : List String) : Option FileTree := do
  t.at? ((← t.canonical? path.dropLast) ++ path.getLast?.toList)

def leadsSomewhere (t : FileTree) (path : List String) : Bool :=
  (t.follow? path).isSome

def leadsToDirectory (t : FileTree) (path : List String) : Bool :=
  (t.follow? path).any isDirectory

def bytes? (t : FileTree) (path : List String) : Option ByteArray :=
  match t.follow? path with
  | some (.file bytes) => some bytes
  | _ => none

/-- The text of the file to which a path leads; none if it leads nowhere. -/
def text? (t : FileTree) (path : List String) : Option (Except ReadFault String) :=
  match t.follow? path with
  | none => none
  | some (.file bytes) =>
    match String.fromUTF8? bytes with
    | some text => some (.ok text)
    | none => some (.error .notText)
  | some _ => some (.error .isDirectory)

/-! ## Building -/

def setEntry (name : String) (node : FileTree) :
    List (String × FileTree) → List (String × FileTree)
  | [] => [(name, node)]
  | (n, t) :: rest => if n = name then (name, node) :: rest else (n, t) :: setEntry name node rest

/-- The tree with a node at a path. Directories on the way come into being. -/
def put (node : FileTree) : List String → FileTree → FileTree
  | [], _ => node
  | name :: rest, .directory entries =>
    let child := (entries.lookup name).getD empty
    .directory (setEntry name (put node rest child) entries)
  | name :: rest, _ => .directory [(name, put node rest empty)]

/-- Where something is written that is written to a path: through the links that exist. -/
def destination (t : FileTree) (path : List String) : List String :=
  path.foldl (fun done name => (canonicalFrom? t linkLimit done [name]).getD (done ++ [name])) []

def writeFile (t : FileTree) (path : List String) (bytes : ByteArray) : FileTree :=
  put (.file bytes) (t.destination path) t

def makeLink (t : FileTree) (path : List String) (target : String) : FileTree :=
  put (.link target) (t.destination path.dropLast ++ path.getLast?.toList) t

/-- The tree with a directory at a path. One that is there stays as it is. -/
def makeDirectory (t : FileTree) (path : List String) : FileTree :=
  let path := t.destination path
  if (t.at? path).isSome then t else put empty path t

end FileTree

/-- A file tree in its place: the text of the path to its root, which shows in messages. -/
structure Disk where
  base : String
  tree : FileTree
  deriving Inhabited

namespace Disk

def fullText (d : Disk) (path : String) : String :=
  d.base ++ "/" ++ path

/-- The path in the tree that a full text names; none if it lies elsewhere. -/
def locate? (d : Disk) (text : String) : Option (List String) :=
  let base := pathNames d.base
  let names := pathNames text
  if base.isPrefixOf names then some (names.drop base.length) else none

end Disk

end SourceEdit
