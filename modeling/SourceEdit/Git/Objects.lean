import SourceEdit.Git.Reference
import SourceEdit.Zlib

/-!
# Objects

An object is kept compressed in a file that is named by its identifier: a header with its kind and
size, and a body. A tag names the object behind it.
-/

namespace SourceEdit.Git

inductive ObjectKind where
  | blob
  | tree
  | commit
  | tag
  deriving Repr, DecidableEq

structure Object where
  kind : ObjectKind
  body : List UInt8

namespace Object

def kindOf? : List Char → Option ObjectKind
  | ['b', 'l', 'o', 'b'] => some .blob
  | ['t', 'r', 'e', 'e'] => some .tree
  | ['c', 'o', 'm', 'm', 'i', 't'] => some .commit
  | ['t', 'a', 'g'] => some .tag
  | _ => none

def charsOf (bytes : List UInt8) : List Char := bytes.map fun b => Char.ofNat b.toNat

/-- Reads an object: its kind, a space, the size of its body in digits, a null byte and the
body. -/
def ofBytes? (bytes : List UInt8) : Option Object :=
  let header := charsOf (bytes.takeWhile (· != 0))
  let kindText := header.takeWhile (· != ' ')
  let sizeText := header.drop (kindText.length + 1)
  match kindOf? kindText, bytes.drop header.length with
  | some kind, _ :: body =>
    let size := sizeText.foldl (fun n d => n * 10 + (d.toNat - 48)) 0
    if !sizeText.isEmpty && sizeText.all Char.isDigit && size = body.length then
      some { kind, body }
    else none
  | _, _ => none

def load? (tree : FileTree) (place : Place) (id : String) : Option Object := do
  let path := [String.ofList (id.toList.take 2), String.ofList (id.toList.drop 2)]
  let bytes ← tree.bytes? (place.shared ++ ["objects"] ++ path)
  ofBytes? (← Zlib.decompress? bytes).toList

def behind? (o : Object) : Option String :=
  match charsOf o.body with
  | 'o' :: 'b' :: 'j' :: 'e' :: 'c' :: 't' :: ' ' :: cs => Reference.id? cs
  | _ => none

def tagLimit : Nat := 100

/-- The identifier of the object behind all tags; every object on the way has to exist. -/
def peel? (tree : FileTree) (place : Place) : Nat → String → Option String
  | 0, _ => none
  | fuel + 1, id => do
    let o ← load? tree place id
    if o.kind = .tag then peel? tree place fuel (← o.behind?) else return id

end Object

end SourceEdit.Git
