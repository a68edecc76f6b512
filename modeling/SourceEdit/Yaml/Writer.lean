import SourceEdit.Yaml.Cursor
import SourceEdit.Yaml.Scalar
import SourceEdit.Yaml.Token

/-!
# Writing records

A record is a mapping of names to texts, one line each. A text is written plain where it reads
back as itself, in single quotes where it would read as something else, in double quotes where it
holds characters that need an escape, and as a literal block where it has line feeds.
-/

namespace SourceEdit.Yaml

def isPrintable (c : Char) : Bool :=
  let n := c.toNat
  n == 10 || (32 ≤ n && n ≤ 126) || (0xA0 ≤ n && n != 0xFEFF && n != 0xFFFE && n != 0xFFFF)

/-- Which characters follow and precede what, as far as it matters for the choice of a style. -/
structure Traits where
  /-- An indicator that would end or misread a plain text. -/
  indicators : Bool := false
  /-- A character that needs an escape. -/
  special : Bool := false
  lineBreaks : Bool := false
  leadingBlank : Bool := false
  leadingBreak : Bool := false
  trailingBlank : Bool := false
  trailingBreak : Bool := false
  /-- A blank after a line end. -/
  breakBlank : Bool := false
  /-- A line end after a blank. -/
  blankBreak : Bool := false
  deriving Repr, DecidableEq

/-- Whether a character is an indicator where it stands: at the start of the text or not, after a
blank or not, and before a blank or not. -/
def isIndicator (first afterBlank beforeBlank : Bool) (c : Char) : Bool :=
  if first then
    "#,[]\x7b\x7d&*!|>'\"%@`".toList.contains c ||
      ((c == '?' || c == ':' || c == '-') && beforeBlank)
  else (c == ':' && beforeBlank) || (c == '#' && afterBlank)

def traitsFrom (t : Traits) (before : Option Char) : List Char → Traits
  | [] => t
  | c :: cs =>
    let first := before.isNone
    let last := cs.isEmpty
    let afterBlank := before.all (fun b => isBlank b || isBreak b)
    let t := { t with
      indicators := t.indicators || isIndicator first afterBlank (isBlankOrEnd cs.head?) c
      special := t.special || !isPrintable c
      lineBreaks := t.lineBreaks || isBreak c
      leadingBlank := t.leadingBlank || (first && c == ' ')
      trailingBlank := t.trailingBlank || (last && c == ' ')
      leadingBreak := t.leadingBreak || (first && isBreak c)
      trailingBreak := t.trailingBreak || (last && isBreak c)
      breakBlank := t.breakBlank || (c == ' ' && before.any isBreak)
      blankBreak := t.blankBreak || (isBreak c && before == some ' ') }
    traitsFrom t (some c) cs

/-- The traits of a text. One that starts like the marker of a document counts as an indicator. -/
def traits (text : List Char) : Traits :=
  let marker := ['-', '-', '-'].isPrefixOf text || ['.', '.', '.'].isPrefixOf text
  traitsFrom { indicators := marker } none text

def Traits.allowsPlain (t : Traits) : Bool :=
  !(t.leadingBlank || t.leadingBreak || t.trailingBlank || t.trailingBreak || t.breakBlank ||
    t.blankBreak || t.special || t.lineBreaks || t.indicators)

def Traits.allowsSingleQuotes (t : Traits) : Bool :=
  !(t.breakBlank || t.blankBreak || t.special)

def Traits.allowsBlock (t : Traits) : Bool :=
  !(t.trailingBlank || t.blankBreak || t.special)

/-- Whether a plain text would be read as text: not as null, a truth value or a number, and not as
digits after a zero. -/
def readsAsText (text : String) : Bool :=
  meaning text == .text && !isZeroLed text.toList

def styleFor (text : String) : Style :=
  let t := traits text.toList
  let wanted :=
    if text.toList.contains '\n' then Style.literal
    else if readsAsText text then .plain
    else .singleQuoted
  match wanted with
  | .literal => if t.allowsBlock then .literal else .doubleQuoted
  | .plain =>
    if t.allowsPlain then .plain else if t.allowsSingleQuotes then .singleQuoted else .doubleQuoted
  | _ => if t.allowsSingleQuotes then .singleQuoted else .doubleQuoted

/-! ## Styles -/

def nodeIndent : List Char := [' ', ' ']

/-- The inside of single quotes: quotes are doubled, and a line after a line end is indented. -/
def singleQuotedBody (afterBreak : Bool) : List Char → List Char
  | [] => if afterBreak then nodeIndent else []
  | c :: cs =>
    if isBreak c then c :: singleQuotedBody true cs
    else
      let lead := if afterBreak && c != ' ' then nodeIndent else []
      let here := if c == '\'' then ['\'', '\''] else [c]
      lead ++ here ++ singleQuotedBody (afterBreak && c == ' ') cs

def hexText (count n : Nat) : List Char :=
  let digits := (Nat.toDigits 16 n).map Char.toUpper
  List.replicate (count - digits.length) '0' ++ digits

def doubleQuotedChar (c : Char) : List Char :=
  let n := c.toNat
  if isPrintable c && !isBreak c && c != '"' && c != '\\' then [c]
  else
    match n with
    | 0 => ['\\', '0']
    | 7 => ['\\', 'a']
    | 8 => ['\\', 'b']
    | 9 => ['\\', 't']
    | 10 => ['\\', 'n']
    | 11 => ['\\', 'v']
    | 12 => ['\\', 'f']
    | 13 => ['\\', 'r']
    | 27 => ['\\', 'e']
    | 34 => ['\\', '"']
    | 92 => ['\\', '\\']
    | 0x85 => ['\\', 'N']
    | 0xA0 => ['\\', '_']
    | 0x2028 => ['\\', 'L']
    | 0x2029 => ['\\', 'P']
    | _ =>
      if n ≤ 0xFF then '\\' :: 'x' :: hexText 2 n
      else if n ≤ 0xFFFF then '\\' :: 'u' :: hexText 4 n
      else '\\' :: 'U' :: hexText 8 n

/-- Whether the line ends at the end of a text have to be kept: it is a line end alone, or ends in
two of them. -/
def keepsBreaks (text : List Char) : Bool :=
  match text.reverse with
  | [c] => isBreak c
  | c :: d :: _ => isBreak c && isBreak d
  | [] => false

def literalHeader (text : List Char) : List Char :=
  let indent := if text.head?.any (fun c => c == ' ' || isBreak c) then ['2'] else []
  let chomp :=
    if keepsBreaks text then ['+']
    else if text.getLast?.any isBreak then []
    else ['-']
  '|' :: indent ++ chomp

def literalBody (atLineStart : Bool) : List Char → List Char
  | [] => []
  | c :: cs =>
    if isBreak c then c :: literalBody true cs
    else (if atLineStart then nodeIndent else []) ++ c :: literalBody false cs

/-- A text in a style, and whether its last line has ended. -/
def written (style : Style) (text : List Char) : List Char × Bool :=
  match style with
  | .plain => (text, false)
  | .singleQuoted => ('\'' :: singleQuotedBody false text ++ ['\''], false)
  | .literal | .folded =>
    (literalHeader text ++ '\n' :: literalBody true text, text.getLast?.any isBreak)
  | .doubleQuoted => ('"' :: text.flatMap doubleQuotedChar ++ ['"'], false)

def recordLine (name value : String) : List Char :=
  let (text, ended) := written (styleFor value) value.toList
  name.toList ++ ':' :: ' ' :: text ++ (if ended then [] else ['\n'])

/-- A record as a document. If its last text keeps its line ends, a marker of the end of the
document shows where they stop. -/
def renderRecord (fields : List (String × String)) : String :=
  let open_ := fields.getLast?.any fun (_, v) =>
    styleFor v == .literal && keepsBreaks v.toList
  String.ofList (fields.flatMap fun (n, v) => recordLine n v) ++ (if open_ then "...\n" else "")

end SourceEdit.Yaml
