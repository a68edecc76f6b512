import SourceEdit.Dict

/-!
# Named patterns

A parameter may refer to a pattern by a dollar sign and a name. The catalog says what each name
stands for; a name is looked up once, so that a pattern found there is an expression even if it
starts with a dollar sign itself.
-/

namespace SourceEdit

structure Catalog where
  patterns : Dict String
  deriving Inhabited

namespace Catalog

def get? (c : Catalog) (name : String) : Option String :=
  c.patterns.get? name

/-- The expression that a declared pattern stands for: what its name refers to after a dollar
sign, and otherwise the pattern itself. -/
def resolve? (c : Catalog) (pattern : String) : Option String :=
  match pattern.toList with
  | '$' :: name => c.get? (String.ofList name)
  | _ => some pattern

def builtinEntries : List (String × String) := [
  ("ContentPattern", "(?s).*"),
  ("JavaPackage", "[a-z][a-z0-9_]*(\\.[a-z][a-z0-9_]*)*"),
  ("JavaIdentifier", "[A-Za-z_$][A-Za-z0-9_$]*"),
  ("SemanticVersion", "\\d+\\.\\d+\\.\\d+(-[0-9A-Za-z.-]+)?"),
  ("GroupId", "[A-Za-z0-9_.-]+"),
  ("ArtifactId", "[a-z][-a-z0-9_]*"),
  ("GitUrl", "(https?|git|ssh)://\\S+|git@\\S+"),
  ("GitSha", "[0-9a-f]\x7b7,40\x7d"),
  ("BranchName", "[^\\s~^:?*\\[\\\\]+")]

def builtinPatterns : Dict String := Dict.ofList builtinEntries

def builtin : Catalog := ⟨builtinPatterns⟩

end Catalog

end SourceEdit
