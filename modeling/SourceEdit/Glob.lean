import SourceEdit.Glob.Token
import SourceEdit.Pattern.Places

/-!
# Globs

A glob matches a path as a whole, byte by byte, so that `?` stands for a part of a character that
takes several bytes. Whether wildcards match slashes too is up to the place where a glob is used.

A glob means what its tokens mean. It is not compiled to a regular expression first, so the limits
that such an expression would be under, on how deep it nests and how large it gets, are left out.
-/

namespace SourceEdit

open Unicode (CodeSet)

structure Glob where
  text : String
  /-- Whether wildcards stay within one part of a path. -/
  withinParts : Bool
  tokens : List Glob.Token

structure GlobError where
  text : String
  fault : Glob.Fault
  deriving Repr, DecidableEq

def GlobError.message (e : GlobError) : String :=
  "error parsing glob '" ++ e.text ++ "': " ++ e.fault.message

namespace Glob

/-- Reads a glob. With `lenient`, a bracket that is never closed stands for itself. -/
def ofString (withinParts lenient : Bool) (text : String) : Except GlobError Glob :=
  match readTokens lenient text.toList with
  | .ok tokens => .ok { text, withinParts, tokens }
  | .error fault => .error { text, fault }

/-! ## Meaning -/

def bytesOf (text : String) : List Nat :=
  text.toUTF8.data.toList.map UInt8.toNat

def allBytes : CodeSet := .range 0 255

def slash : CodeSet := .range 47 47

def wildcard (withinParts : Bool) : CodeSet :=
  if withinParts then .ofRanges [(0, 46), (48, 255)] else allBytes

/-- The bytes of a range: the last byte of its lower end up to the first of its upper end, and all
other bytes of both. -/
def rangeBytes (lo hi : Char) : List (Nat × Nat) :=
  if lo = hi then (bytesOf (String.singleton lo)).map fun b => (b, b)
  else
    let l := bytesOf (String.singleton lo)
    let h := bytesOf (String.singleton hi)
    (l.getLastD 0, h.headD 0) :: (l.dropLast ++ h.tail).map fun b => (b, b)

def classBytes (negated : Bool) (ranges : List (Char × Char)) : CodeSet :=
  let set := CodeSet.ofRanges (ranges.flatMap fun (lo, hi) => rangeBytes lo hi)
  if negated then set.compl.inter allBytes else set

def anything : Pattern.Node CodeSet := .times 0 none (.leaf allBytes)

mutual

/-- Whether tokens stand for nothing at all, as empty braces do. -/
def isVoid : List Token → Bool
  | [] => true
  | t :: ts => isVoidToken t && isVoid ts

def isVoidToken : Token → Bool
  | .alternates branches => areVoid branches
  | _ => false

def areVoid : List (List Token) → Bool
  | [] => true
  | b :: bs => isVoid b && areVoid bs

end

mutual

def nodeOf (withinParts : Bool) : List Token → Pattern.Node CodeSet
  | [] => .empty
  | t :: ts => .seq (nodeOfToken withinParts t) (nodeOf withinParts ts)

def nodeOfToken (withinParts : Bool) : Token → Pattern.Node CodeSet
  | .literal c =>
    .seqOf ((bytesOf (String.singleton c)).map fun b => .leaf (.range b b))
  | .any => .leaf (wildcard withinParts)
  | .star => .times 0 none (.leaf (wildcard withinParts))
  | .leadingDirs =>
    .alt (.times 0 (some 1) (.leaf slash)) (.seq anything (.leaf slash))
  | .trailingDirs => .seq (.leaf slash) anything
  | .innerDirs => .alt (.leaf slash) (.seq (.leaf slash) (.seq anything (.leaf slash)))
  | .cls negated ranges => .leaf (classBytes negated ranges)
  | .alternates branches => .altOf (nodesOf withinParts branches)

/-- The alternatives; those that stand for nothing do not count. -/
def nodesOf (withinParts : Bool) : List (List Token) → List (Pattern.Node CodeSet)
  | [] => []
  | b :: bs =>
    if isVoid b then nodesOf withinParts bs
    else nodeOf withinParts b :: nodesOf withinParts bs

end

/-- The meaning of a glob. One that is `**` alone matches everything. -/
def node (g : Glob) : Pattern.Node CodeSet :=
  match g.tokens with
  | [.leadingDirs] => anything
  | ts => nodeOf g.withinParts ts

def isMatch (g : Glob) (path : String) : Bool :=
  Pattern.matchesWhole CodeSet.hasCode (fun _ => 0) g.node (bytesOf path)

end Glob

end SourceEdit
