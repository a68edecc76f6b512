import SourceEdit.Text.Blank

/-!
# Versions and version ranges

A version is a word without blanks, commas and brackets. A range is a version in square brackets,
or two bounds with a comma between them in square or round brackets on either side; a bound may be
left out. Several ranges may follow one another, with commas between them.
-/

namespace SourceEdit.Version

def isVersionChar (c : Char) : Bool :=
  !(Text.isBlank c || c == ',' || c == '[' || c == ']' || c == '(' || c == ')')

def isVersion (cs : List Char) : Bool :=
  !cs.isEmpty && cs.all isVersionChar

/-- The rest of the text after a bound and the blanks around it. -/
def afterBound (cs : List Char) : List Char :=
  ((cs.dropWhile Text.isBlank).dropWhile isVersionChar).dropWhile Text.isBlank

/-- The rest of the text after a range, if it starts with one. -/
def afterRange? : List Char → Option (List Char)
  | [] => none
  | c :: cs =>
    if c == '[' || c == '(' then
      match afterBound cs with
      | ']' :: rest => if c == '[' then some rest else none
      | ',' :: more =>
        match afterBound more with
        | ']' :: rest | ')' :: rest => some rest
        | _ => none
      | _ => none
    else none

/-- Ranges with commas between them; the length of the text bounds their number. -/
def areRanges : Nat → List Char → Bool
  | 0, _ => false
  | fuel + 1, cs =>
    match afterRange? cs with
    | none => false
    | some [] => true
    | some rest =>
      match rest.dropWhile Text.isBlank with
      | ',' :: more => areRanges fuel (more.dropWhile Text.isBlank)
      | _ => false

/-- Whether a text is a version or a list of version ranges; blanks at its ends do not count. -/
def isVersionOrRange (text : String) : Bool :=
  let cs := Text.trim text.toList
  isVersion cs || areRanges (cs.length + 1) cs

end SourceEdit.Version
