import SourceEdit.Text.Digit

/-!
# Quoted texts of JSON

How a text is written between quotes: quotes, backslashes and control characters are escaped, and
all other characters stand for themselves. Reading accepts every escape of the format, also those
that are not needed, and pairs of codes for a character beyond 16 bits.
-/

namespace SourceEdit.Json

open Text (charOf? digit?)

/-! ## Writing -/

def escapeChar (c : Char) : List Char :=
  if c = '"' then ['\\', '"']
  else if c = '\\' then ['\\', '\\']
  else if c = '\x08' then ['\\', 'b']
  else if c = '\t' then ['\\', 't']
  else if c = '\n' then ['\\', 'n']
  else if c = '\x0c' then ['\\', 'f']
  else if c = '\r' then ['\\', 'r']
  else if c.toNat < 32 then
    ['\\', 'u', '0', '0', Nat.digitChar (c.toNat / 16), Nat.digitChar (c.toNat % 16)]
  else [c]

def escape (cs : List Char) : List Char :=
  cs.flatMap escapeChar

def quote (text : String) : String :=
  String.ofList ('"' :: escape text.toList ++ ['"'])

/-! ## Reading -/

def unit? (a b c d : Char) : Option Nat := do
  let high := (← digit? 16 a) * 16 + (← digit? 16 b)
  let low := (← digit? 16 c) * 16 + (← digit? 16 d)
  return high * 256 + low

/-- The character of two codes that make up a pair. -/
def pair? (high low : Nat) : Option Char :=
  if 0xD800 ≤ high ∧ high < 0xDC00 ∧ 0xDC00 ≤ low ∧ low < 0xE000 then
    some (Char.ofNat (0x10000 + (high - 0xD800) * 0x400 + (low - 0xDC00)))
  else none

/-- The text up to the closing quote, and what follows the quote. -/
def unescape : List Char → Option (List Char × List Char)
  | [] => none
  | '"' :: rest => some ([], rest)
  | '\\' :: 'u' :: a :: b :: c :: d :: rest => do
    let code ← unit? a b c d
    match charOf? code with
    | some x => (unescape rest).map fun (t, r) => (x :: t, r)
    | none =>
      match rest with
      | '\\' :: 'u' :: a :: b :: c :: d :: rest => do
        let x ← pair? code (← unit? a b c d)
        (unescape rest).map fun (t, r) => (x :: t, r)
      | _ => none
  | '\\' :: e :: rest => do
    let x ← match e with
      | '"' => some '"'
      | '\\' => some '\\'
      | '/' => some '/'
      | 'b' => some '\x08'
      | 't' => some '\t'
      | 'n' => some '\n'
      | 'f' => some '\x0c'
      | 'r' => some '\r'
      | _ => none
    (unescape rest).map fun (t, r) => (x :: t, r)
  | c :: rest =>
    if c.toNat < 32 ∨ c = '\\' then none
    else (unescape rest).map fun (t, r) => (c :: t, r)

end SourceEdit.Json
