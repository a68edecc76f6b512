/-!
# Tokens of YAML

The marks of a YAML text: starts and ends of documents and collections, entries, keys and values,
and the properties and texts of nodes.
-/

namespace SourceEdit.Yaml

inductive Style where
  | plain | singleQuoted | doubleQuoted | literal | folded
  deriving Repr, DecidableEq, Inhabited

inductive Token where
  | streamEnd
  /-- A version directive. -/
  | version (major minor : Nat)
  /-- A directive that lets a handle stand for the start of tags. -/
  | tagDirective (handle start : String)
  | documentStart
  | documentEnd
  | blockSequenceStart
  | blockMappingStart
  | blockEnd
  | flowSequenceStart
  | flowSequenceEnd
  | flowMappingStart
  | flowMappingEnd
  | blockEntry
  | flowEntry
  | key
  | value
  | alias (name : String)
  | anchor (name : String)
  | tag (handle suffix : String)
  | scalar (style : Style) (text : String)
  /-- The text cannot be read on from here. -/
  | unreadable
  deriving Repr, DecidableEq, Inhabited

end SourceEdit.Yaml
