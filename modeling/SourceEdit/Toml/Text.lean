import SourceEdit.Text.Digit

/-!
# Texts of TOML

Strings in one line or several, with escapes or without. A text in several lines starts after the
line end that follows its opening quotes, and up to two quotes may stand before its closing ones.
-/

namespace SourceEdit.Toml

open Text (charOf? digit?)

def isBlank (c : Char) : Bool :=
  c == ' ' || c == '\t'

/-- Characters that may stand in texts and comments: no control characters but the tab. -/
def isPlain (c : Char) : Bool :=
  c == '\t' || (32 ≤ c.toNat && c.toNat ≤ 126) || 128 ≤ c.toNat

def lineEnd? : List Char → Option (List Char)
  | '\n' :: rest => some rest
  | '\r' :: '\n' :: rest => some rest
  | _ => none

/-- The character with a code of exactly `n` hexadecimal digits, and what follows them. -/
def hexCode? (n : Nat) (cs : List Char) : Option (Char × List Char) := do
  let digits ← (cs.take n).mapM (digit? 16)
  let c ← charOf? (digits.foldl (fun v d => v * 16 + d) 0)
  if digits.length = n then some (c, cs.drop n) else none

def escape? : List Char → Option (Char × List Char)
  | 'b' :: rest => some ('\x08', rest)
  | 't' :: rest => some ('\t', rest)
  | 'n' :: rest => some ('\n', rest)
  | 'f' :: rest => some ('\x0c', rest)
  | 'r' :: rest => some ('\r', rest)
  | '"' :: rest => some ('"', rest)
  | '\\' :: rest => some ('\\', rest)
  | 'u' :: rest => hexCode? 4 rest
  | 'U' :: rest => hexCode? 8 rest
  | _ => none

def skipBlankLines : Nat → List Char → List Char
  | 0, cs => cs
  | fuel + 1, cs =>
    let cs := cs.dropWhile isBlank
    match lineEnd? cs with
    | some rest => skipBlankLines fuel rest
    | none => cs

/-- What follows a line that ends in a backslash, where the next text begins; the backslash has
been read. -/
def continuation? (cs : List Char) : Option (List Char) :=
  (lineEnd? (cs.dropWhile isBlank)).map fun rest => skipBlankLines (rest.length + 1) rest

/-- The rest of a text in one line, in which a backslash escapes. -/
def lineText : Nat → List Char → Option (List Char × List Char)
  | _, [] => none
  | 0, _ => none
  | fuel + 1, c :: cs =>
    if c = '"' then some ([], cs)
    else do
      let (x, rest) ←
        if c = '\\' then escape? cs else if isPlain c then some (c, cs) else none
      let (text, rest) ← lineText fuel rest
      return (x :: text, rest)

def literalText (cs : List Char) : Option (List Char × List Char) :=
  let text := cs.takeWhile fun c => isPlain c && c != '\''
  match cs.drop text.length with
  | '\'' :: rest => some (text, rest)
  | _ => none

def longText (quote : Char) (escapes : Bool) : Nat → List Char → Option (List Char × List Char)
  | _, [] => none
  | 0, _ => none
  | fuel + 1, c :: cs =>
    if c = quote then
      let quotes := (c :: cs).takeWhile (· == quote)
      let rest := cs.drop (quotes.length - 1)
      if quotes.length < 3 then do
        let (text, rest) ← longText quote escapes fuel rest
        return (quotes ++ text, rest)
      else
        let own := (quotes.drop 3).take 2
        some (own, cs.drop (own.length + 2))
    else
      match lineEnd? (c :: cs) with
      | some rest => do
        let (text, rest) ← longText quote escapes fuel rest
        return ('\n' :: text, rest)
      | none =>
        if escapes && c == '\\' then
          match continuation? cs with
          | some rest => longText quote escapes fuel rest
          | none => do
            let (x, rest) ← escape? cs
            let (text, rest) ← longText quote escapes fuel rest
            return (x :: text, rest)
        else if isPlain c then do
          let (text, rest) ← longText quote escapes fuel cs
          return (c :: text, rest)
        else none

def longTextFrom (quote : Char) (escapes : Bool) (cs : List Char) :
    Option (List Char × List Char) :=
  let cs := (lineEnd? cs).getD cs
  longText quote escapes cs.length cs

def text? : List Char → Option (String × List Char)
  | '"' :: '"' :: '"' :: cs => (longTextFrom '"' true cs).map fun (t, r) => (String.ofList t, r)
  | '\'' :: '\'' :: '\'' :: cs =>
    (longTextFrom '\'' false cs).map fun (t, r) => (String.ofList t, r)
  | '"' :: cs => (lineText cs.length cs).map fun (t, r) => (String.ofList t, r)
  | '\'' :: cs => (literalText cs).map fun (t, r) => (String.ofList t, r)
  | _ => none

end SourceEdit.Toml
