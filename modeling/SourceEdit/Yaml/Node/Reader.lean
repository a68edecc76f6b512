import SourceEdit.Yaml.Node
import SourceEdit.Yaml.Token.Lexer

/-!
# From tokens to documents

Documents are read one after another, so that a fault in a later one does not touch those before
it. Anchors are numbered by how many names are known when they are set.
-/

namespace SourceEdit.Yaml

/-- What is left to read of a document, the anchor names known so far, and the handles in force. -/
structure NodeState where
  tokens : List Token
  names : List (String × Nat) := []
  handles : List (String × String) := []

namespace NodeState

def peek (s : NodeState) : Token := s.tokens.headD .unreadable

def advance (s : NodeState) : NodeState := { s with tokens := s.tokens.drop 1 }

/-- The number of an anchor being set. A name that is set again keeps the count of names. -/
def setAnchor (s : NodeState) (name : String) : Nat × NodeState :=
  let distinct := (s.names.map (·.1)).eraseDups.length
  (distinct, { s with names := (name, distinct) :: s.names })

def anchor? (s : NodeState) (name : String) : Option Nat :=
  (s.names.find? (·.1 == name)).map (·.2)

def tag? (s : NodeState) (handle suffix : String) : Option String :=
  if handle.isEmpty then some suffix
  else (s.handles.find? (·.1 == handle)).map (·.2 ++ suffix)

/-- Reads an anchor and a tag, in either order; at most one of each. -/
def properties? (s : NodeState) : Option (Properties × NodeState) :=
  match s.peek with
  | .anchor name =>
    let (n, s) := s.advance.setAnchor name
    match s.peek with
    | .tag handle suffix => do
      let tag ← s.tag? handle suffix
      some ({ anchor := some n, tag := some tag }, s.advance)
    | _ => some ({ anchor := some n }, s)
  | .tag handle suffix => do
    let tag ← s.tag? handle suffix
    let s := s.advance
    match s.peek with
    | .anchor name =>
      let (n, s) := s.advance.setAnchor name
      some ({ anchor := some n, tag := some tag }, s)
    | _ => some ({ tag := some tag }, s)
  | _ => some ({}, s)

/-- Whether the token ends an entry, so that its key or value is left out. -/
def endsBlockPart (t : Token) : Bool :=
  t == .key || t == .value || t == .blockEnd

mutual

/-- Reads a node. Block collections are read only where `block` allows them, and a sequence
without indentation of its own only where `indentless` does. -/
def node? (block indentless : Bool) : Nat → NodeState → Option (Node × NodeState)
  | 0, _ => none
  | fuel + 1, s =>
    match s.peek with
    | .alias name => do some (.alias (← s.anchor? name), s.advance)
    | _ => do
      let (props, s) ← s.properties?
      match s.peek with
      | .scalar style text => some (.scalar props style text, s.advance)
      | .blockEntry =>
        if indentless then do
          let (items, s) ← indentlessItems? fuel s
          some (.sequence props items, s)
        else missing? props s
      | .flowSequenceStart => do
        let (items, s) ← flowItems? true fuel s.advance
        some (.sequence props items, s)
      | .flowMappingStart => do
        let (entries, s) ← flowEntries? true fuel s.advance
        some (.mapping props entries, s)
      | .blockSequenceStart =>
        if block then do
          let (items, s) ← blockItems? fuel s.advance
          some (.sequence props items, s)
        else missing? props s
      | .blockMappingStart =>
        if block then do
          let (entries, s) ← blockEntries? fuel s.advance
          some (.mapping props entries, s)
        else missing? props s
      | _ => missing? props s

/-- A node with properties alone is an empty scalar; one without any is a fault. -/
def missing? (props : Properties) (s : NodeState) : Option (Node × NodeState) :=
  if props.anchor.isSome || props.tag.isSome then
    if s.peek == .unreadable then none else some (.missing props, s)
  else none

def blockItems? : Nat → NodeState → Option (List Node × NodeState)
  | 0, _ => none
  | fuel + 1, s =>
    match s.peek with
    | .blockEntry => do
      let s := s.advance
      let (item, s) ← (if s.peek == .blockEntry || s.peek == .blockEnd then some (.missing, s)
        else node? true false fuel s)
      let (items, s) ← blockItems? fuel s
      some (item :: items, s)
    | .blockEnd => some ([], s.advance)
    | _ => none

/-- The items of a sequence at the indentation of the mapping around it. -/
def indentlessItems? : Nat → NodeState → Option (List Node × NodeState)
  | 0, _ => none
  | fuel + 1, s =>
    match s.peek with
    | .blockEntry => do
      let s := s.advance
      let (item, s) ← (if s.peek == .blockEntry || endsBlockPart s.peek then some (.missing, s)
        else node? true false fuel s)
      let (items, s) ← indentlessItems? fuel s
      some (item :: items, s)
    | .unreadable => none
    | _ => some ([], s)

def blockEntries? : Nat → NodeState → Option (List (Node × Node) × NodeState)
  | 0, _ => none
  | fuel + 1, s =>
    match s.peek with
    | .key => do
      let s := s.advance
      let (key, s) ← (if endsBlockPart s.peek then some (.missing, s) else node? true true fuel s)
      let (value, s) ← blockValue? fuel s
      let (entries, s) ← blockEntries? fuel s
      some ((key, value) :: entries, s)
    | .blockEnd => some ([], s.advance)
    | _ => none

def blockValue? : Nat → NodeState → Option (Node × NodeState)
  | 0, _ => none
  | fuel + 1, s =>
    match s.peek with
    | .value =>
      let s := s.advance
      if endsBlockPart s.peek then some (.missing, s) else node? true true fuel s
    | .unreadable => none
    | _ => some (.missing, s)

/-- The items of a sequence in brackets; a pair among them is a mapping of one entry. -/
def flowItems? (first : Bool) : Nat → NodeState → Option (List Node × NodeState)
  | 0, _ => none
  | fuel + 1, s =>
    if s.peek == .flowSequenceEnd then some ([], s.advance)
    else if !first && s.peek != .flowEntry then none
    else
      let s := if first then s else s.advance
      match s.peek with
      | .flowSequenceEnd => some ([], s.advance)
      | .key => do
        let (pair, s) ← flowPair? fuel s.advance
        let (items, s) ← flowItems? false fuel s
        some (.mapping {} [pair] :: items, s)
      | _ => do
        let (item, s) ← node? false false fuel s
        let (items, s) ← flowItems? false fuel s
        some (item :: items, s)

/-- A pair within a sequence in brackets. A key that is left out takes the token after it
along, whatever that is. -/
def flowPair? : Nat → NodeState → Option ((Node × Node) × NodeState)
  | 0, _ => none
  | fuel + 1, s => do
    let (key, s) ← (
      if s.peek == .value || s.peek == .flowEntry || s.peek == .flowSequenceEnd then
        some (.missing, s.advance)
      else node? false false fuel s)
    if s.peek == .value then
      let s := s.advance
      if s.peek == .flowEntry || s.peek == .flowSequenceEnd then some ((key, .missing), s)
      else
        let (value, s) ← node? false false fuel s
        some ((key, value), s)
    else if s.peek == .unreadable then none
    else some ((key, .missing), s)

def flowEntries? (first : Bool) : Nat → NodeState → Option (List (Node × Node) × NodeState)
  | 0, _ => none
  | fuel + 1, s =>
    if s.peek == .flowMappingEnd then some ([], s.advance)
    else if !first && s.peek != .flowEntry then none
    else
      let s := if first then s else s.advance
      match s.peek with
      | .flowMappingEnd => some ([], s.advance)
      | .key => do
        let s := s.advance
        let (key, s) ← (
          if s.peek == .value || s.peek == .flowEntry || s.peek == .flowMappingEnd then
            some (.missing, s)
          else node? false false fuel s)
        let (value, s) ← flowValue? fuel s
        let (entries, s) ← flowEntries? false fuel s
        some ((key, value) :: entries, s)
      | _ => do
        let (key, s) ← node? false false fuel s
        let (entries, s) ← flowEntries? false fuel s
        some ((key, .missing) :: entries, s)

def flowValue? : Nat → NodeState → Option (Node × NodeState)
  | 0, _ => none
  | fuel + 1, s =>
    match s.peek with
    | .value =>
      let s := s.advance
      if s.peek == .flowEntry || s.peek == .flowMappingEnd then some (.missing, s)
      else node? false false fuel s
    | .unreadable => none
    | _ => some (.missing, s)

end

end NodeState

/-! ## Documents -/

def defaultHandles : List (String × String) :=
  [("!", "!"), ("!!", "tag:yaml.org,2002:")]

/-- The directives before a document, as the handles that they set. -/
structure Directives where
  hasVersion : Bool := false
  handles : List (String × String) := []

/-- Takes up directives. Each may be given once, and the version has to be 1.1 or 1.2. -/
def directives? (d : Directives) : List Token → Option (Directives × List Token)
  | .version major minor :: rest =>
    if d.hasVersion || major != 1 || (minor != 1 && minor != 2) then none
    else directives? { d with hasVersion := true } rest
  | .tagDirective handle start :: rest =>
    if d.handles.any (·.1 == handle) then none
    else directives? { d with handles := d.handles ++ [(handle, start)] } rest
  | tokens => some (d, tokens)

/-- The tokens after the root of a document: a marker of its end is taken along. -/
def afterDocument? : List Token → Option (List Token)
  | .documentEnd :: rest => some rest
  | .unreadable :: _ => none
  | tokens => some tokens

/-- Reads the root of a document and the marker of its end, if there is one. -/
def root? (handles : List (String × String)) (tokens : List Token) :
    Option (Document × List Token) := do
  let (node, s) ← NodeState.node? true false (4 * tokens.length + 4) { tokens, handles }
  some (Document.ofRoot node, ← afterDocument? s.tokens)

/-- Reads what follows the marker of a start of a document, where the root may be missing. -/
def markedRoot? (handles : List (String × String)) (tokens : List Token) :
    Option (Document × List Token) :=
  match tokens.headD .unreadable with
  | .version .. | .tagDirective .. | .documentStart | .documentEnd | .streamEnd =>
    (afterDocument? tokens).map (Document.ofRoot .missing, ·)
  | _ => root? handles tokens

/-- Reads all documents from a place between two of them. A fault makes the document in which it
lies `none`, and ends the list. -/
def documentsFrom (first : Bool) : Nat → List Token → List (Option Document)
  | 0, _ => [none]
  | fuel + 1, tokens =>
    let tokens := if first then tokens else tokens.dropWhile (· == .documentEnd)
    let proceed := fun (read : Option (Document × List Token)) =>
      match read with
      | some (d, rest) => some d :: documentsFrom false fuel rest
      | none => [none]
    match tokens.headD .unreadable with
    | .streamEnd => []
    | .unreadable => [none]
    | .version .. | .tagDirective .. | .documentStart =>
      match directives? {} tokens with
      | some (d, .documentStart :: rest) => proceed (markedRoot? (d.handles ++ defaultHandles) rest)
      | _ => [none]
    | _ => if first then proceed (root? defaultHandles tokens) else [none]

/-- The documents of a text. A text without any counts as one that has no root. -/
def documents (text : List Char) : List (Option Document) :=
  let ts := tokens text
  match documentsFrom true (ts.length + 1) ts with
  | [] => [some { root := none }]
  | ds => ds

end SourceEdit.Yaml
