import SourceEdit.Pattern.Places
import SourceEdit.Text.Blank
import SourceEdit.Unicode.Folding

/-!
# Flags and single characters

What a character, a dot, an anchor or a class escape stands for depends on the flags in force:
case, lines, Unicode and so on. An expression that could match part of an encoded character has
no meaning here, because the texts are always whole characters.
-/

namespace SourceEdit.Pattern

open Unicode (CodeSet)

/-- The flags that `(?...)` sets. -/
structure Flags where
  /-- Letter case does not count. -/
  ignoreCase : Bool := false
  /-- `^` and `$` match at lines. -/
  multiLine : Bool := false
  /-- `.` matches line breaks too. -/
  dotAll : Bool := false
  /-- Repetitions prefer few rounds; without effect on whether a text matches. -/
  lazyFirst : Bool := false
  /-- Classes are those of Unicode and not of ASCII. -/
  unicode : Bool := true
  /-- A carriage return ends a line too. -/
  crlf : Bool := false
  /-- Blanks and comments in the expression do not count. -/
  extended : Bool := false
  deriving Repr, DecidableEq

def Flags.set? (f : Flags) (name : Char) (on : Bool) : Option Flags :=
  match name with
  | 'i' => some { f with ignoreCase := on }
  | 'm' => some { f with multiLine := on }
  | 's' => some { f with dotAll := on }
  | 'U' => some { f with lazyFirst := on }
  | 'u' => some { f with unicode := on }
  | 'R' => some { f with crlf := on }
  | 'x' => some { f with extended := on }
  | _ => none

/-- Drops blanks, and comments from a hash to the end of its line. -/
def dropInsignificant (inComment : Bool) : List Char → List Char
  | [] => []
  | c :: cs =>
    if inComment then dropInsignificant (c != '\n') cs
    else if Text.isBlank c then dropInsignificant false cs
    else if c == '#' then dropInsignificant true cs
    else c :: cs

def Flags.skip (f : Flags) (cs : List Char) : List Char :=
  if f.extended then dropInsignificant false cs else cs

def byteSet : CodeSet := .range 0 255

def closeUnderAsciiCase (set : CodeSet) : CodeSet :=
  let letters := set.inter (.ofRanges [(65, 90), (97, 122)])
  set.union (.ofRanges (letters.ranges.flatMap fun (lo, hi) =>
    (List.range (hi + 1 - lo)).map fun i =>
      let n := lo + i
      let other := if n < 97 then n + 32 else n - 32
      (other, other)))

def Flags.fold (f : Flags) (set : CodeSet) : CodeSet :=
  if f.ignoreCase then
    if f.unicode then set.closeUnderCase else closeUnderAsciiCase set
  else set

def Flags.negate (f : Flags) (set : CodeSet) : CodeSet :=
  if f.unicode then set.compl else set.compl.inter byteSet

def Flags.foldNegate (f : Flags) (negated : Bool) (set : CodeSet) : CodeSet :=
  if negated then f.negate (f.fold set) else f.fold set

/-- A class as it stands; without Unicode it has to stay within ASCII, as else it could match a part
of a character. -/
def Flags.admit? (f : Flags) (set : CodeSet) : Option CodeSet :=
  if f.unicode || set.isAscii then some set else none

/-- A character written as itself or by its number; `isByte` says that it was written as a byte. -/
def Flags.literal? (f : Flags) (c : Char) (isByte : Bool) : Option (Node CodeSet) :=
  if !f.unicode && isByte && 128 ≤ c.toNat then none
  else some (.leaf (if !f.unicode && 128 ≤ c.toNat then .ofChars [c] else f.fold (.ofChars [c])))

def Flags.dot? (f : Flags) : Option (Node CodeSet) :=
  if !f.unicode then none
  else if f.dotAll then some (.leaf .full)
  else if f.crlf then some (.leaf (CodeSet.ofChars ['\n', '\r']).compl)
  else some (.leaf (CodeSet.ofChars ['\n']).compl)

def Flags.lineStart (f : Flags) : Anchor :=
  if f.multiLine then .lineStart f.crlf else .textStart

def Flags.lineEnd (f : Flags) : Anchor :=
  if f.multiLine then .lineEnd f.crlf else .textEnd

/-! ## Classes with a letter or a name -/

def asciiDigit : CodeSet := .range 48 57

def asciiBlank : CodeSet := .ofRanges [(9, 13), (32, 32)]

def blankSet : CodeSet :=
  .ofRanges [(9, 13), (32, 32), (0x85, 0x85), (0xA0, 0xA0), (0x1680, 0x1680), (0x2000, 0x200A),
    (0x2028, 0x2029), (0x202F, 0x202F), (0x205F, 0x205F), (0x3000, 0x3000)]

def digitSet : CodeSet := (Unicode.category? "nd").getD ∅

/-- The class of a letter escape: `d`, `s` or `w`, or its negation as a capital. -/
def Flags.letterClass? (f : Flags) (letter : Char) : Option CodeSet :=
  let set := match letter.toLower with
    | 'd' => if f.unicode then digitSet else asciiDigit
    | 's' => if f.unicode then blankSet else asciiBlank
    | _ => if f.unicode then wordSet else asciiWordSet
  f.admit? (if letter.isUpper then f.negate set else set)

def asciiClass? (name : String) : Option CodeSet :=
  match name with
  | "alnum" => some (.ofRanges [(48, 57), (65, 90), (97, 122)])
  | "alpha" => some (.ofRanges [(65, 90), (97, 122)])
  | "ascii" => some (.range 0 127)
  | "blank" => some (.ofRanges [(9, 9), (32, 32)])
  | "cntrl" => some (.ofRanges [(0, 31), (127, 127)])
  | "digit" => some asciiDigit
  | "graph" => some (.range 33 126)
  | "lower" => some (.range 97 122)
  | "print" => some (.range 32 126)
  | "punct" => some (.ofRanges [(33, 47), (58, 64), (91, 96), (123, 126)])
  | "space" => some asciiBlank
  | "upper" => some (.range 65 90)
  | "word" => some asciiWordSet
  | "xdigit" => some (.ofRanges [(48, 57), (65, 70), (97, 102)])
  | _ => none

end SourceEdit.Pattern
