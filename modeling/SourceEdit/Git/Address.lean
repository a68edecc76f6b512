import SourceEdit.Text.Digit
import SourceEdit.Text.Fields

/-!
# Addresses of repositories

A repository has an address: a path, a host and a path with a colon between them, or a locator
with a scheme. Locators have one common form, without query, fragment and usual service, and with
characters escaped that may not stand in them.
-/

namespace SourceEdit.Git.Address

/-! ## Escapes -/

def escaped (c : Char) : List Char :=
  (String.singleton c).toUTF8.toList.flatMap fun b =>
    ['%', (Nat.digitChar (b.toNat / 16)).toUpper, (Nat.digitChar (b.toNat % 16)).toUpper]

def isPathUnsafe (c : Char) : Bool :=
  c.toNat ≤ 32 || c.toNat ≥ 127 || "\"#<>?`^\x7b\x7d".toList.contains c

def escapePath (cs : List Char) : List Char :=
  cs.flatMap fun c => if isPathUnsafe c then escaped c else [c]

def escapeName (cs : List Char) : List Char :=
  cs.flatMap fun c => if c.isAlphanum then [c] else escaped c

def unescapedBytes : List Char → List UInt8
  | [] => []
  | '%' :: a :: b :: cs =>
    match Text.digit? 16 a, Text.digit? 16 b with
    | some x, some y => (x * 16 + y).toUInt8 :: unescapedBytes cs
    | _, _ => '%'.toNat.toUInt8 :: unescapedBytes (a :: b :: cs)
  | c :: cs => (String.singleton c).toUTF8.toList ++ unescapedBytes cs

/-- The text without escapes; none if that is no text. -/
def unescape? (cs : List Char) : Option (List Char) :=
  (String.fromUTF8? ⟨(unescapedBytes cs).toArray⟩).map String.toList

/-! ## Hosts -/

/-- Schemes whose locators have a host in small letters, a usual service and a path. -/
def usualService? : List Char → Option Nat
  | ['h', 't', 't', 'p'] | ['w', 's'] => some 80
  | ['h', 't', 't', 'p', 's'] | ['w', 's', 's'] => some 443
  | ['f', 't', 'p'] => some 21
  | _ => none

def isHostUnsafe (c : Char) : Bool :=
  c.toNat ≤ 32 || c.toNat == 127 || "#/<>?@[\\]^|%:".toList.contains c

structure Authority where
  user : List Char := []
  password : Option (List Char) := none
  host : List Char
  /-- The number of the service. -/
  service : Option Nat := none

def cut (c : Char) (cs : List Char) : List Char × Option (List Char) :=
  let before := cs.takeWhile (· != c)
  match cs.drop before.length with
  | _ :: after => (before, some after)
  | [] => (before, none)

/-- The number of a service in digits; an empty one is none. -/
def service? (text : Option (List Char)) : Option (Option Nat) :=
  match text with
  | none | some [] => some none
  | some ds =>
    let n := ds.foldl (fun n d => n * 10 + (d.toNat - 48)) 0
    if ds.all Char.isDigit && n < 65536 then some (some n) else none

def authority? (scheme text : List Char) : Option Authority := do
  let (userText, hostText) := Text.splitLast '@' text
  let (user, password) := cut ':' (userText.getD [])
  let (host, serviceText) := cut ':' hostText
  let service ← service? serviceText
  let usual := usualService? scheme
  let host := if usual.isSome then host.map Char.toLower else host
  if host.any isHostUnsafe || (usual.isSome && host.isEmpty) then none
  else
    return {
      user, host
      password := password.filter (!·.isEmpty)
      service := if service = usual then none else service }

/-! ## Paths -/

/-- Whether a part of a path stands for its directory or the one above. -/
def dots (part : List Char) : Nat :=
  match part.map Char.toLower with
  | ['.'] | ['%', '2', 'e'] => 1
  | ['.', '.'] | ['.', '%', '2', 'e'] | ['%', '2', 'e', '.'] |
    ['%', '2', 'e', '%', '2', 'e'] => 2
  | _ => 0

/-- The parts of a path without dots, in reverse. -/
def withoutDots (done : List (List Char)) : List (List Char) → List (List Char)
  | [] => done
  | part :: rest =>
    match dots part with
    | 0 => withoutDots (part :: done) rest
    | 1 => withoutDots (if rest.isEmpty then [] :: done else done) rest
    | _ => withoutDots (if rest.isEmpty then [] :: done.tail else done.tail) rest

/-- The common form of a path that starts with a slash, or is empty. -/
def commonPath (path : List Char) : List Char :=
  match path with
  | [] => []
  | _ :: body => '/' :: Text.join '/' (withoutDots [] (Text.fields '/' (escapePath body))).reverse

/-! ## Addresses -/

def isSchemeChar (c : Char) : Bool :=
  c.isAlphanum || c == '+' || c == '-' || c == '.'

def locatorText? (scheme : List Char) (a : Authority) (path : List Char) : Option (List Char) := do
  let named := !a.user.isEmpty || a.password.isSome
  let user ← unescape? a.user
  let password ← a.password.mapM unescape?
  let userText :=
    if named then
      escapeName user ++ ((password.map fun p => ':' :: escapeName p).getD []) ++ ['@']
    else []
  let serviceText := (a.service.map fun n => ':' :: (toString n).toList).getD []
  return scheme ++ "://".toList ++ userText ++ a.host ++ serviceText ++ path

/-- The common form of a locator: scheme and what follows its slashes. -/
def locator? (scheme text : List Char) : Option (List Char) := do
  let scheme := scheme.map Char.toLower
  if !(scheme.head?.any Char.isAlpha) || !scheme.all isSchemeChar then none
  else
    let special := (usualService? scheme).isSome
    let text := text.filter fun c => c != '\t' && c != '\n' && c != '\r'
    let text := text.takeWhile fun c => c != '?' && c != '#'
    let text := if special then text.map fun c => if c = '\\' then '/' else c else text
    let text := if special then text.dropWhile (· == '/') else text
    let authorityText := text.takeWhile (· != '/')
    let authority ← authority? scheme authorityText
    let path := commonPath (text.drop authorityText.length)
    let path := if special && path.isEmpty then ['/'] else path
    if path.isEmpty && (scheme == "ssh".toList || scheme == "git".toList) then none
    else locatorText? scheme authority path

/-- The locator of a file: a host, which is mostly left out, and a path. -/
def fileLocator? (text : List Char) : Option (List Char) :=
  if text.contains '/' then some ("file://".toList ++ text) else none

/-- The common form of a host and a path with a colon between them. -/
def shortForm? (hostText path : List Char) : Option (List Char) := do
  if path.isEmpty then none
  else
    let a ← authority? "ssh".toList hostText
    let user ← unescape? a.user
    let userText := if user.isEmpty then [] else user ++ ['@']
    return userText ++ a.host ++ ':' :: path

/-- The parts before and after the first colon that two slashes follow. -/
def scheme? : List Char → Option (List Char × List Char)
  | [] => none
  | ':' :: '/' :: '/' :: rest => some ([], rest)
  | c :: cs => (scheme? cs).map fun (s, r) => (c :: s, r)

/-- The common form of an address, if it is one. -/
def common? (text : String) : Option String :=
  let cs := text.toList
  let form :=
    match scheme? cs with
    | some (scheme, rest) =>
      if scheme.map Char.toLower = "file".toList then fileLocator? rest else locator? scheme rest
    | none =>
      match cut ':' cs with
      | (host, some path) => if host.contains '/' then some cs else shortForm? host path
      | (_, none) => if cs.isEmpty then none else some cs
  form.map String.ofList

end SourceEdit.Git.Address
