/-!
# Regular expressions as trees

A regular expression is a tree over leaves of some type: sets of characters when it has just been
read, sets of places once a text is fixed. Captures and greediness are absent, since only the
question whether a text matches is ever asked.
-/

namespace SourceEdit.Pattern

/-- A condition on a place between two characters, or at an end of the text. -/
inductive Anchor where
  /-- The start of the text. -/
  | textStart
  /-- The end of the text. -/
  | textEnd
  /-- The start of a line; with `crlf`, a carriage return ends a line too. -/
  | lineStart (crlf : Bool)
  /-- The end of a line. -/
  | lineEnd (crlf : Bool)
  /-- Exactly one neighbour is part of a word; with `ascii`, words have ASCII characters only. -/
  | wordEdge (ascii : Bool)
  | notWordEdge (ascii : Bool)
  /-- A word begins here. -/
  | wordStart (ascii : Bool)
  /-- A word ends here. -/
  | wordEnd (ascii : Bool)
  /-- No word character stands before this place. -/
  | wordStartHalf (ascii : Bool)
  /-- No word character stands after this place. -/
  | wordEndHalf (ascii : Bool)
  deriving Repr, DecidableEq

/-- A regular expression over leaves of type `α`. -/
inductive Node (α : Type) where
  | empty
  | leaf (a : α)
  | anchor (a : Anchor)
  | seq (first second : Node α)
  | alt (left right : Node α)
  /-- At least `min` times, and at most `max` times where that is given. -/
  | times (min : Nat) (max : Option Nat) (body : Node α)
  deriving Repr, DecidableEq

namespace Node

def seqOf : List (Node α) → Node α
  | [] => .empty
  | [n] => n
  | n :: ns => .seq n (seqOf ns)

def altOf : List (Node α) → Node α
  | [] => .empty
  | [n] => n
  | n :: ns => .alt n (altOf ns)

def map (f : α → β) : Node α → Node β
  | .empty => .empty
  | .leaf a => .leaf (f a)
  | .anchor a => .anchor a
  | .seq a b => .seq (a.map f) (b.map f)
  | .alt a b => .alt (a.map f) (b.map f)
  | .times lo hi body => .times lo hi (body.map f)

/-- The space that an expression takes when every bounded repetition is written out, given the
space of each leaf. -/
def space (leafSpace : α → Nat) : Node α → Nat
  | .empty => 0
  | .leaf a => leafSpace a
  | .anchor _ => 32
  | .seq a b => a.space leafSpace + b.space leafSpace
  | .alt a b => a.space leafSpace + b.space leafSpace + 40
  | .times lo none body => (max lo 1) * body.space leafSpace + 40
  | .times lo (some hi) body => hi * body.space leafSpace + (hi - lo) * 40

end Node

end SourceEdit.Pattern
