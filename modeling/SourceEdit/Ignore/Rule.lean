import SourceEdit.Glob
import SourceEdit.Text.Blank

/-!
# Ignore rules

Files of ignore rules have one rule a line: a glob for what is ignored, or after an exclamation
mark for what is kept. Of the rules that match an entry, the last one decides.
-/

namespace SourceEdit

inductive Verdict where
  | ignore
  | keep
  deriving Repr, DecidableEq

structure IgnoreRule where
  glob : Glob
  verdict : Verdict
  /-- Whether the rule is about directories only. -/
  onlyDirectories : Bool

namespace IgnoreRule

/-- The text of a rule without what stands around its glob. -/
structure Parts where
  body : List Char
  verdict : Verdict
  /-- Whether the glob starts at the directory of the rule. -/
  anchored : Bool

/-- Takes off the exclamation mark and the leading slash, or the backslash that robs the first
character of its meaning. -/
def takeFront (line : List Char) : Parts :=
  match line with
  | '\\' :: '!' :: rest => ⟨'!' :: rest, .ignore, false⟩
  | '\\' :: '#' :: rest => ⟨'#' :: rest, .ignore, false⟩
  | '!' :: '/' :: rest => ⟨rest, .keep, true⟩
  | '!' :: rest => ⟨rest, .keep, false⟩
  | '/' :: rest => ⟨rest, .ignore, true⟩
  | line => ⟨line, .ignore, false⟩

/-- Takes off a slash at the end, which says that the rule is about directories, with a backslash
before it. -/
def takeBack (body : List Char) : List Char × Bool :=
  match body.reverse with
  | '/' :: '\\' :: rest => (rest.reverse, true)
  | '/' :: rest => (rest.reverse, true)
  | _ => (body, false)

/-- A glob without slashes matches at any depth. -/
def atAnyDepth (anchored : Bool) (body : List Char) : List Char :=
  if anchored || body.contains '/' || body == ['*', '*'] then body else '*' :: '*' :: '/' :: body

/-- A glob that ends in everything below a directory does not match the directory itself. -/
def belowOnly (body : List Char) : List Char :=
  if ['/', '*', '*'].isSuffixOf body then body ++ ['/', '*'] else body

/-- The line without blanks at its end, unless the last of them has a backslash before it. -/
def trimmed (line : List Char) : List Char :=
  if ['\\', ' '].isSuffixOf line then line else Text.dropEndWhile Text.isBlank line

/-- Reads a rule. Comments, blank lines and lines with a bad glob are none. -/
def ofLine? (line : List Char) : Option IgnoreRule :=
  let text := trimmed line
  if line.head? = some '#' || text.isEmpty then none
  else
    let parts := takeFront text
    let (body, onlyDirectories) := takeBack parts.body
    let source := belowOnly (atAnyDepth parts.anchored body)
    match Glob.ofString true true (String.ofList source) with
    | .ok glob => some { glob, verdict := parts.verdict, onlyDirectories }
    | .error _ => none

def applies (r : IgnoreRule) (path : String) (isDirectory : Bool) : Bool :=
  (isDirectory || !r.onlyDirectories) && r.glob.isMatch path

end IgnoreRule

structure IgnoreRules where
  rules : List IgnoreRule := []
  deriving Inhabited

namespace IgnoreRules

/-- What the rules say about an entry: what the last one that applies does. -/
def verdict? (rs : IgnoreRules) (path : String) (isDirectory : Bool) : Option Verdict :=
  (rs.rules.reverse.find? (·.applies path isDirectory)).map (·.verdict)

def withoutReturn (line : List Char) : List Char :=
  if line.getLast? = some '\r' then line.dropLast else line

def byteLines (bytes : List UInt8) : List (List UInt8) :=
  match bytes with
  | [] => [[]]
  | b :: bs =>
    let lines := byteLines bs
    if b = 10 then [] :: lines
    else
      match lines with
      | [] => [[b]]
      | l :: ls => (b :: l) :: ls

/-- The lines of a file up to the first that is no text. -/
def readableLines (bytes : ByteArray) : List (List Char) :=
  let texts := (byteLines bytes.toList).map fun l => String.fromUTF8? ⟨l.toArray⟩
  ((texts.takeWhile Option.isSome).filterMap id).map fun t => withoutReturn t.toList

/-- Reads the rules in a file. Byte order marks may open it. -/
def ofBytes (bytes : ByteArray) : IgnoreRules :=
  match readableLines bytes with
  | [] => {}
  | first :: others =>
    ⟨(first.dropWhile (· == '\uFEFF') :: others).filterMap IgnoreRule.ofLine?⟩

end IgnoreRules

end SourceEdit
