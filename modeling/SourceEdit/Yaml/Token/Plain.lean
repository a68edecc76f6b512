import SourceEdit.Yaml.Token.Quoted

/-!
# Scalars without quotes

A plain scalar ends at a colon or a hash that blanks set apart, at an indicator of the flow style
where that is in force, at the marker of a document, and where the indentation ends.
-/

namespace SourceEdit.Yaml

def isFlowIndicator (c : Char) : Bool :=
  c == ',' || c == '[' || c == ']' || c == '\x7b' || c == '\x7d'

/-- Reads characters up to a blank, a line end or an indicator that ends the scalar. The result
says whether any character was read. A colon directly before an indicator is an error in the
flow style. -/
def plainRun (flow : Bool) (f : Folding) : Nat → Cursor → Option (Folding × Cursor)
  | 0, c => some (f, c)
  | fuel + 1, c =>
    match c.peek with
    | none => some (f, c)
    | some x =>
      if isBlank x || isBreak x then some (f, c)
      else
        let next := c.peekAt 1
        if flow && x == ':' && next.any (fun y => isFlowIndicator y || y == '?') then none
        else if (x == ':' && isBlankOrEnd next) || (flow && isFlowIndicator x) then some (f, c)
        else plainRun flow (f.settle.add x) fuel c.skip

/-- Takes up blanks and line ends within a plain scalar; a tab may not stand in the indentation. -/
def plainGap (indent : Nat) (f : Folding) : Nat → Cursor → Option (Folding × Cursor)
  | 0, c => some (f, c)
  | fuel + 1, c =>
    match c.peek with
    | some x =>
      if isBlank x || isBreak x then
        if f.broken && c.column < indent && x == '\t' then none
        else
          let (f, c) := f.take c
          plainGap indent f fuel c
      else some (f, c)
    | none => some (f, c)

/-- Reads a plain scalar. The result says also whether lines ended after its last character. -/
def plainLoop (flow : Bool) (indent : Nat) (f : Folding) :
    Nat → Cursor → Option (String × Bool × Cursor)
  | 0, _ => none
  | fuel + 1, c => do
    let done := fun (f : Folding) (c : Cursor) => (String.ofList f.text.reverse, f.broken, c)
    if c.atDocumentMarker || c.peek == some '#' then some (done f c)
    else
      let (f, c) ← plainRun flow f (c.rest.length + 1) c
      if !c.peek.any (fun x => isBlank x || isBreak x) then some (done f c)
      else
        let (f, c) ← plainGap indent f (c.rest.length + 1) c
        if !flow && c.column < indent then some (done f c)
        else plainLoop flow indent f fuel c

def plain? (flow : Bool) (indent : Nat) (c : Cursor) : Option (String × Bool × Cursor) :=
  plainLoop flow indent {} (c.rest.length + 1) c

end SourceEdit.Yaml
