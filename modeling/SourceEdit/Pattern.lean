import SourceEdit.Pattern.Reader

/-!
# Patterns

A pattern is a regular expression read from text. It can be asked whether it matches a text from
end to end, or somewhere within it. To test whole values, an expression is also read with the
anchors of a whole text written around it; a comment at its end can swallow the closing one, so
that an expression may be readable alone and not so anchored.
-/

namespace SourceEdit

structure Pattern where
  source : String
  node : Pattern.Node Unicode.CodeSet

namespace Pattern

def ofString? (source : String) : Option Pattern :=
  (read? source.toList).map fun node => { source, node }

/-- The text of an expression with the anchors of a whole text around it. -/
def anchoredSource (source : String) : String :=
  "^(?:" ++ source ++ ")$"

/-- Reads an expression for tests of whole values: both it and its anchored form have to be
readable, and the anchored form is kept. -/
def wholeValue? (source : String) : Option Pattern := do
  let _ ← ofString? source
  ofString? (anchoredSource source)

/-- Whether the pattern matches somewhere in the text. -/
def isMatch (p : Pattern) (text : String) : Bool :=
  let cs := text.toList
  matchesWithin Unicode.CodeSet.contains (placesAt cs) p.node cs

end Pattern

end SourceEdit
