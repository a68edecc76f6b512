import SourceEdit.Catalog
import SourceEdit.Pattern

/-!
# Parameters

An editor declares its parameters: for each a name, a pattern that the whole value has to match, a
largest length, and whether it may be left out. Binding checks raw values against the
declarations and yields a bundle, in which every value has passed its checks.
-/

namespace SourceEdit

structure Parameter where
  name : String
  description : String := ""
  /-- The name under which people see the parameter. -/
  displayName : String := name
  /-- An expression, or a dollar sign and a name in the catalog. -/
  pattern : String := ".*"
  /-- The most characters that a value may have. -/
  maxLength : Nat := 100
  /-- The value of an optional parameter that is left out. -/
  default? : Option String := none
  required : Bool := true
  deriving Repr, DecidableEq, Inhabited

def Parameter.optional (p : Parameter) (default? : Option String) : Parameter :=
  { p with required := false, default? }

inductive PatternFault where
  /-- The catalog does not have the name. -/
  | unknownName
  /-- The text is no regular expression. -/
  | unreadable
  deriving Repr, DecidableEq

inductive BindReason where
  | patternMismatch (pattern : String)
  | tooLong (maxLength actual : Nat)
  | missingRequired
  | unknownParameter
  | invalidPattern (pattern : String) (fault : PatternFault)
  deriving Repr, DecidableEq

def PatternFault.message : PatternFault → String
  | .unknownName => "no such named pattern"
  | .unreadable => "not a regular expression"

def BindReason.message : BindReason → String
  | .patternMismatch pattern => "value does not match pattern '" ++ pattern ++ "'"
  | .tooLong maxLength actual =>
    "value is " ++ toString actual ++ " characters, maximum is " ++ toString maxLength
  | .missingRequired => "required value is missing"
  | .unknownParameter => "no such parameter is declared"
  | .invalidPattern pattern fault =>
    "declared pattern '" ++ pattern ++ "' is unusable: " ++ fault.message

structure BindError where
  field : String
  reason : BindReason
  deriving Repr, DecidableEq

def BindError.message (e : BindError) : String :=
  "invalid parameter '" ++ e.field ++ "': " ++ e.reason.message

/-! ## Bundles -/

structure Bundle where
  values : Dict String
  deriving Inhabited

namespace Bundle

def empty : Bundle := ⟨∅⟩

instance : EmptyCollection Bundle := ⟨empty⟩

def get? (b : Bundle) (name : String) : Option String :=
  b.values.get? name

def require (b : Bundle) (name : String) : Except BindError String :=
  match b.get? name with
  | some value => .ok value
  | none => .error ⟨name, .missingRequired⟩

def size (b : Bundle) : Nat := b.values.size

def isEmpty (b : Bundle) : Bool := b.values.isEmpty

end Bundle

/-! ## Binding -/

/-- The pattern against which the values of a declared pattern are tested. -/
def Catalog.compile (c : Catalog) (declared : String) : Except PatternFault Pattern :=
  match c.resolve? declared with
  | none => .error .unknownName
  | some source =>
    match Pattern.wholeValue? source with
    | none => .error .unreadable
    | some p => .ok p

/-- Checks a value: its length first, then the pattern itself, then the value against it. -/
def Parameter.check (p : Parameter) (catalog : Catalog) (value : String) : Except BindError Unit :=
  let actual := value.length
  if actual > p.maxLength then .error ⟨p.name, .tooLong p.maxLength actual⟩
  else
    match catalog.compile p.pattern with
    | .error fault => .error ⟨p.name, .invalidPattern p.pattern fault⟩
    | .ok pattern =>
      if pattern.isMatch value then .ok () else .error ⟨p.name, .patternMismatch p.pattern⟩

structure Schema where
  params : List Parameter := []
  deriving Repr, DecidableEq, Inhabited

namespace Schema

def get? (s : Schema) (name : String) : Option Parameter :=
  s.params.find? (·.name = name)

/-- The value that a parameter takes from raw input: the one supplied, else the default. None
is taken for an optional parameter without a default. -/
def valueFor (raw : Dict String) (p : Parameter) : Except BindError (Option String) :=
  match raw.get? p.name with
  | some value => .ok (some value)
  | none => if p.required then .error ⟨p.name, .missingRequired⟩ else .ok p.default?

/-- Takes and checks the value of one parameter. A default is checked like any value. -/
def bindOne (catalog : Catalog) (raw : Dict String) (bound : Bundle) (p : Parameter) :
    Except BindError Bundle := do
  match ← valueFor raw p with
  | none => return bound
  | some value =>
    p.check catalog value
    return ⟨bound.values.insert p.name value⟩

/-- Binds raw values: every parameter in the order of its declaration, then the first name, in
the order of names, that is not declared at all. -/
def bind (s : Schema) (raw : Dict String) (catalog : Catalog) : Except BindError Bundle := do
  let bound ← s.params.foldlM (bindOne catalog raw) ∅
  match raw.keys.find? (fun k => (s.get? k).isNone) with
  | some unknown => .error ⟨unknown, .unknownParameter⟩
  | none => return bound

end Schema

end SourceEdit
