import SourceEdit.Yaml.Token.Block
import SourceEdit.Yaml.Token.Plain
import SourceEdit.Yaml.Token.Properties

/-!
# From text to tokens

Blocks are delimited by indentation, so the lexer tracks the columns of the open blocks and emits
their starts and ends. A node that turns out to be a key, because a colon follows it on its line,
gets its key token inserted before it; at every level of flow nesting, the latest node that may
still become a key is remembered.

Reading stops at the first fault. The tokens before it stand, followed by one that says that the
text cannot be read on.
-/

namespace SourceEdit.Yaml

/-- A node that becomes a key if a colon follows. -/
structure KeyCandidate where
  /-- The number of tokens before the node. -/
  position : Nat
  /-- The node stands where only a key can stand. -/
  required : Bool
  index : Nat
  line : Nat
  column : Nat

structure LexerState where
  cursor : Cursor
  /-- The tokens so far, the latest first. -/
  tokens : List Token := []
  count : Nat := 0
  /-- The column of the innermost block, and those of the blocks around it. -/
  indent : Option Nat := none
  outerIndents : List (Option Nat) := []
  /-- Whether a node at the cursor may become a key. -/
  keyAllowed : Bool := true
  /-- The candidate at the current level of flow nesting, and those at the outer levels. -/
  candidate : Option KeyCandidate := none
  outerCandidates : List (Option KeyCandidate) := []

namespace LexerState

def inFlow (s : LexerState) : Bool := !s.outerCandidates.isEmpty

def emit (s : LexerState) (t : Token) : LexerState :=
  { s with tokens := t :: s.tokens, count := s.count + 1 }

def insertAt (s : LexerState) (position : Nat) (t : Token) : LexerState :=
  let later := s.count - position
  { s with tokens := s.tokens.take later ++ t :: s.tokens.drop later, count := s.count + 1 }

/-- Opens a block at a column if that is deeper than the blocks that are open. Its start is
emitted, or inserted where a key began. -/
def openBlock (s : LexerState) (column : Nat) (position : Option Nat) (start : Token) :
    LexerState :=
  if s.inFlow || s.indent.any (column ≤ ·) then s
  else
    let s := { s with indent := some column, outerIndents := s.indent :: s.outerIndents }
    match position with
    | none => s.emit start
    | some p => s.insertAt p start

/-- Closes the blocks that are indented more than `column`; without a column, all of them. -/
def closeBlocksLoop (column : Option Nat) : Nat → LexerState → LexerState
  | 0, s => s
  | fuel + 1, s =>
    match s.indent, s.outerIndents with
    | some i, outer :: rest =>
      if column.all (· < i) then
        let closed := { s with indent := outer, outerIndents := rest }
        closeBlocksLoop column fuel (closed.emit .blockEnd)
      else s
    | _, _ => s

def closeBlocks (s : LexerState) (column : Option Nat) : LexerState :=
  if s.inFlow then s else closeBlocksLoop column (s.outerIndents.length + 1) s

/-- Gives up the candidate of the current level; one that had to become a key is a fault. -/
def dropCandidate? (s : LexerState) : Option LexerState :=
  if s.candidate.any (·.required) then none else some { s with candidate := none }

/-- Makes the node at the cursor the candidate of its level, if a key is allowed there. -/
def noteCandidate? (s : LexerState) : Option LexerState :=
  if s.keyAllowed then do
    let s ← s.dropCandidate?
    let c := s.cursor
    let required := !s.inFlow && s.indent == some c.column
    some { s with
      candidate := some
        { position := s.count, required, index := c.index, line := c.line, column := c.column } }
  else some s

/-- A candidate has to be on the current line and within 1024 characters. -/
def isStale (c : Cursor) (k : KeyCandidate) : Bool :=
  k.line < c.line || k.index + 1024 < c.index

def dropStale? (s : LexerState) : Option LexerState :=
  let stale := fun (k : Option KeyCandidate) => k.any (isStale s.cursor)
  let fault := fun (k : Option KeyCandidate) => stale k && k.any (·.required)
  if fault s.candidate || s.outerCandidates.any fault then none
  else
    let keep := fun k => if stale k then none else k
    some { s with candidate := keep s.candidate, outerCandidates := s.outerCandidates.map keep }

/-- Steps over blanks, comments and line ends. Where a key may start, tabs do not count as
blanks outside the flow style; a line end allows a key again there. -/
def skipGap : Nat → LexerState → LexerState
  | 0, s => s
  | fuel + 1, s =>
    let blank := fun x => x == ' ' || (x == '\t' && (s.inFlow || !s.keyAllowed))
    let c := s.cursor
    let c := if c.index == 0 && c.peek == some '\ufeff' then c.skip else c
    let c := (c.skipWhile blank).skipComment
    if c.peek.any isBreak then
      skipGap fuel { s with cursor := c.skipBreak, keyAllowed := s.keyAllowed || !s.inFlow }
    else { s with cursor := c }

def indicator (s : LexerState) (width : Nat) (t : Token) : LexerState :=
  { s with cursor := s.cursor.skipMany width }.emit t

def flowStart? (s : LexerState) (t : Token) : Option LexerState := do
  let s ← s.noteCandidate?
  some ({ s with
    candidate := none, outerCandidates := s.candidate :: s.outerCandidates, keyAllowed := true
    }.indicator 1 t)

def flowEnd? (s : LexerState) (t : Token) : Option LexerState := do
  let s ← s.dropCandidate?
  let s := match s.outerCandidates with
    | k :: outer => { s with candidate := k, outerCandidates := outer }
    | [] => s
  some ({ s with keyAllowed := false }.indicator 1 t)

def blockEntry? (s : LexerState) : Option LexerState := do
  if !s.inFlow && !s.keyAllowed then none
  let s := s.openBlock s.cursor.column none .blockSequenceStart
  let s ← s.dropCandidate?
  some ({ s with keyAllowed := true }.indicator 1 .blockEntry)

def explicitKey? (s : LexerState) : Option LexerState := do
  if !s.inFlow && !s.keyAllowed then none
  let s := s.openBlock s.cursor.column none .blockMappingStart
  let s ← s.dropCandidate?
  some ({ s with keyAllowed := !s.inFlow }.indicator 1 .key)

/-- The mark of a value: it turns the candidate of its level into a key. -/
def valueMark? (s : LexerState) : Option LexerState :=
  match s.candidate with
  | some k =>
    let s := (s.insertAt k.position .key).openBlock k.column (some k.position) .blockMappingStart
    some ({ s with candidate := none, keyAllowed := false }.indicator 1 .value)
  | none =>
    if !s.inFlow && !s.keyAllowed then none
    else
      let s := s.openBlock s.cursor.column none .blockMappingStart
      some ({ s with keyAllowed := !s.inFlow }.indicator 1 .value)

/-- Emits a token that was read up to `cursor`, for a node that may become a key. -/
def node? (s : LexerState) (read : Option (Token × Cursor)) : Option LexerState := do
  let s ← s.noteCandidate?
  let (t, cursor) ← read
  some ({ s with cursor, keyAllowed := false }.emit t)

/-- A directive or a marker of a document, which ends all blocks. -/
def atTop? (s : LexerState) (read : Option (Token × Cursor)) : Option LexerState := do
  let s ← (s.closeBlocks none).dropCandidate?
  let (t, cursor) ← read
  some ({ s with cursor, keyAllowed := false }.emit t)

def startsPlain (flow : Bool) (x : Char) (next : Option Char) : Bool :=
  if x == '-' then !next.any isBlank
  else if x == '?' || x == ':' then !flow && !isBlankOrEnd next
  else !("-?:,[]\x7b\x7d#&*!|>'\"%@`".toList.contains x)

def next? (s : LexerState) (x : Char) : Option LexerState :=
  let c := s.cursor
  let flow := s.inFlow
  let next := c.peekAt 1
  if c.column == 0 && x == '%' then s.atTop? (directive? c)
  else if c.atMarker '-' then s.atTop? (some (.documentStart, c.skipMany 3))
  else if c.atMarker '.' then s.atTop? (some (.documentEnd, c.skipMany 3))
  else if x == '[' then s.flowStart? .flowSequenceStart
  else if x == '\x7b' then s.flowStart? .flowMappingStart
  else if x == ']' then s.flowEnd? .flowSequenceEnd
  else if x == '\x7d' then s.flowEnd? .flowMappingEnd
  else if x == ',' then do
    let s ← s.dropCandidate?
    some ({ s with keyAllowed := true }.indicator 1 .flowEntry)
  else if x == '-' && isBlankOrEnd next then s.blockEntry?
  else if x == '?' && (flow || isBlankOrEnd next) then s.explicitKey?
  else if x == ':' && (flow || isBlankOrEnd next) then s.valueMark?
  else if x == '*' then s.node? ((anchorName? c).map fun (n, c) => (.alias n, c))
  else if x == '&' then s.node? ((anchorName? c).map fun (n, c) => (.anchor n, c))
  else if x == '!' then s.node? (tag? flow c)
  else if (x == '|' || x == '>') && !flow then do
    let folded := x == '>'
    let s ← s.dropCandidate?
    let (text, cursor) ← block? folded s.indent c
    some ({ s with cursor, keyAllowed := true }.emit
      (.scalar (if folded then .folded else .literal) text))
  else if x == '\'' then
    s.node? ((quoted? true c).map fun (t, c) => (.scalar .singleQuoted t, c))
  else if x == '"' then
    s.node? ((quoted? false c).map fun (t, c) => (.scalar .doubleQuoted t, c))
  else if startsPlain flow x next then do
    let s ← s.noteCandidate?
    let indent := match s.indent with
      | some n => n + 1
      | none => 0
    let (text, broken, cursor) ← plain? flow indent c
    some ({ s with cursor, keyAllowed := broken }.emit (.scalar .plain text))
  else none

def finish? (s : LexerState) : Option LexerState := do
  let s ← (s.closeBlocks none).dropCandidate?
  some (s.emit .streamEnd)

/-- Reads tokens to the end of the text or to the first fault. -/
def run : Nat → LexerState → List Token
  | 0, s => (s.emit .unreadable).tokens.reverse
  | fuel + 1, s =>
    let s := skipGap (s.cursor.rest.length + 1) s
    match s.dropStale? with
    | none => (s.emit .unreadable).tokens.reverse
    | some s =>
      let s := s.closeBlocks (some s.cursor.column)
      match s.cursor.peek with
      | none => ((s.finish?).getD (s.emit .unreadable)).tokens.reverse
      | some x =>
        match s.next? x with
        | some s => run fuel s
        | none => (s.emit .unreadable).tokens.reverse

end LexerState

/-- The tokens of a text. A mark of the byte order at its start does not count, and a text with a
character that YAML does not allow has no tokens. -/
def tokens (text : List Char) : List Token :=
  let text := match text with
    | '\ufeff' :: rest => rest
    | _ => text
  if text.all isAllowed then LexerState.run (text.length + 1) { cursor := { rest := text } }
  else [.unreadable]

end SourceEdit.Yaml
