import SourceEdit.Editor

/-!
# Registries

A registry holds editors under their names and the catalog against which their parameters are
checked. Values are bound before an editor runs; once it runs, there is always a result.
-/

namespace SourceEdit

inductive RegistryError where
  | unknownEditor (name : String)
  | duplicateEditor (name : String)
  | binding (error : BindError)
  deriving Repr, DecidableEq

def RegistryError.message : RegistryError → String
  | .unknownEditor name => "no editor named '" ++ name ++ "' is registered"
  | .duplicateEditor name => "an editor named '" ++ name ++ "' is already registered"
  | .binding error => error.message

structure Registry where
  editors : Dict Editor
  catalog : Catalog
  deriving Inhabited

namespace Registry

def empty (catalog : Catalog) : Registry := ⟨∅, catalog⟩

def withBuiltins (catalog : Catalog) : Registry :=
  ⟨Dict.ofList ([Editor.pomReport .pathExpressions, Editor.addContent].map fun e =>
    (e.info.name, e)), catalog⟩

/-- Adds an editor under its name, which must be free. -/
def register (r : Registry) (e : Editor) : Except RegistryError Registry :=
  if r.editors.contains e.info.name then .error (.duplicateEditor e.info.name)
  else .ok { r with editors := r.editors.insert e.info.name e }

def size (r : Registry) : Nat := r.editors.size

def isEmpty (r : Registry) : Bool := r.editors.isEmpty

/-- What the editors are known by, in the order of their names. -/
def list (r : Registry) : List EditorInfo :=
  r.editors.values.map (·.info)

def withTag (r : Registry) (tag : String) : List EditorInfo :=
  r.list.filter (·.hasTag tag)

def find (r : Registry) (name : String) : Except RegistryError Editor :=
  match r.editors.get? name with
  | some e => .ok e
  | none => .error (.unknownEditor name)

def schema (r : Registry) (name : String) : Except RegistryError Schema :=
  (r.find name).map (·.schema)

/-- Binds raw values for an editor. -/
def bind (r : Registry) (name : String) (raw : Dict String) : Except RegistryError Bundle := do
  let schema ← r.schema name
  (schema.bind raw r.catalog).mapError .binding

def run (r : Registry) (name : String) (p : Project) (bundle : Bundle) :
    Except RegistryError (Project × EditResult) := do
  return (← r.find name).run p bundle

def invoke (r : Registry) (name : String) (p : Project) (raw : Dict String) :
    Except RegistryError (Project × EditResult) := do
  let bundle ← r.bind name raw
  r.run name p bundle

end Registry

end SourceEdit
