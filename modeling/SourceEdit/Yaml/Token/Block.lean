import SourceEdit.Yaml.Cursor

/-!
# Block scalars

A block scalar is a run of indented lines. The literal style keeps line ends; the folded style
turns single ones between lines of text into blanks. The end of the text is clipped to one line
end, stripped of all, or kept, as its header says.
-/

namespace SourceEdit.Yaml

/-- What becomes of the line ends at the end of a block scalar. -/
inductive Chomping where
  | strip | clip | keep
  deriving Repr, DecidableEq

structure BlockHeader where
  chomping : Chomping := .clip
  /-- The indentation relative to the enclosing block, if given. -/
  indent? : Option Nat := none

def chompingOf? (c : Char) : Option Chomping :=
  match c with
  | '+' => some .keep
  | '-' => some .strip
  | _ => none

/-- Reads the header after the indicator: both parts are optional and may stand in any order, and
the indentation may not be zero. -/
def blockHeader? (c : Cursor) : Option (BlockHeader × Cursor) := do
  let digit := fun (c : Cursor) (h : BlockHeader) =>
    match c.peek with
    | some d =>
      if d.isDigit then
        if d == '0' then none else some ({ h with indent? := some (d.toNat - 48) }, c.skip)
      else some (h, c)
    | none => some (h, c)
  match c.peek.bind chompingOf? with
  | some chomping => digit c.skip { chomping }
  | none =>
    let (h, c') ← digit c {}
    if h.indent?.isNone then some (h, c')
    else
      match c'.peek.bind chompingOf? with
      | some chomping => some ({ h with chomping }, c'.skip)
      | none => some (h, c')

/-- Steps over indentation and empty lines; the result carries the texts of the line ends, the
latest first, and the deepest indentation seen. `indent` is zero while it is unknown. -/
def blockGap (indent deepest : Nat) (breaks : List Char) :
    Nat → Cursor → Option (List Char × Nat × Cursor)
  | 0, _ => none
  | fuel + 1, c =>
    let room := if indent = 0 then c.rest.length else indent - c.column
    let run := (c.rest.take room).takeWhile (· == ' ')
    let c := c.skipMany run.length
    let deepest := max deepest c.column
    if (indent = 0 || c.column < indent) && c.peek == some '\t' then none
    else if c.peek.any isBreak then
      blockGap indent deepest (c.breakText.reverse ++ breaks) fuel c.skipBreak
    else some (breaks, deepest, c)

structure BlockText where
  /-- The text, the latest character first. -/
  text : List Char := []
  /-- The end of the last line with text. -/
  lineEnd : List Char := []
  /-- The ends of the empty lines after it, the latest character first. -/
  breaks : List Char := []
  /-- Whether the last line with text began with a blank. -/
  ledByBlank : Bool := false

def blockLines (folded : Bool) (indent : Nat) (b : BlockText) :
    Nat → Cursor → Option (BlockText × Cursor)
  | 0, _ => none
  | fuel + 1, c =>
    if c.column != indent || c.peek.isNone then some (b, c)
    else
      let blank := c.peek.any isBlank
      let joined :=
        if folded && b.lineEnd == ['\n'] && !b.ledByBlank && !blank then
          if b.breaks.isEmpty then ' ' :: b.text else b.breaks ++ b.text
        else b.breaks ++ b.lineEnd ++ b.text
      let line := c.spanText (fun x => !isBreak x)
      let c := c.skipWhile (fun x => !isBreak x)
      let b : BlockText :=
        { text := line.reverse ++ joined, lineEnd := c.breakText, ledByBlank := blank }
      match blockGap indent 0 [] (c.rest.length + 2) c.skipBreak with
      | none => none
      | some (breaks, _, c) => blockLines folded indent { b with breaks } fuel c

/-- Reads a block scalar at its indicator; `parent` is the indentation of the enclosing block,
or none at the top. -/
def block? (folded : Bool) (parent : Option Nat) (c : Cursor) : Option (String × Cursor) := do
  let (header, c) ← blockHeader? c.skip
  let c ← c.finishLine?
  let given := match header.indent? with
    | some n => parent.getD 0 + n
    | none => 0
  let (breaks, deepest, c) ← blockGap given 0 [] (c.rest.length + 2) c
  let least := match parent with
    | some n => n + 1
    | none => 0
  let indent := if given = 0 then max (max deepest least) 1 else given
  let (b, c) ← blockLines folded indent { breaks } (c.rest.length + 1) c
  let tail := match header.chomping with
    | .strip => b.text
    | .clip => b.lineEnd ++ b.text
    | .keep => b.breaks ++ b.lineEnd ++ b.text
  some (String.ofList tail.reverse, c)

end SourceEdit.Yaml
