/-!
# Plain data

Trees of the values that configuration files and messages are made of: texts, numbers, truth
values, lists and records. A structure with known members can be told from a record by the names
of its members, or from a list by their positions.
-/

namespace SourceEdit

inductive Data where
  | null
  | boolean (value : Bool)
  | integer (value : Int)
  /-- A number that is not written as an integer. No reader asks for its value. -/
  | fraction
  | text (value : String)
  | list (items : List Data)
  | record (fields : List (String × Data))
  deriving Inhabited

namespace Data

/-- Whether a list may go on after the members that its reader knows. -/
inductive Surplus where
  | ignored
  | refused
  deriving Repr, DecidableEq

def boolean? : Data → Option Bool
  | .boolean value => some value
  | _ => none

def word? : Data → Option UInt64
  | .integer value =>
    if 0 ≤ value ∧ value < UInt64.size then some (UInt64.ofNat value.toNat) else none
  | _ => none

def text? : Data → Option String
  | .text value => some value
  | _ => none

def texts? : Data → Option (List String)
  | .list items => items.mapM text?
  | _ => none

def textFields? : Data → Option (List (String × String))
  | .record fields => fields.mapM fun (name, value) => value.text?.map (name, ·)
  | _ => none

/-- How to find the members of a structure in the data: by name in a record, by position in a
list. A record that has one of them twice is refused; what else it has does not matter. -/
def members? (surplus : Surplus) (names : List String) : Data → Option (String → Option Data)
  | .record fields =>
    if names.all fun name => fields.countP (·.1 == name) ≤ 1 then
      some fun name => fields.lookup name
    else none
  | .list items =>
    if surplus = .refused ∧ names.length < items.length then none
    else some fun name => (names.zip items).lookup name
  | _ => none

/-- Reads a member that may be missing, or null. -/
def optional? (read? : Data → Option α) : Option Data → Option (Option α)
  | none | some .null => some none
  | some value => (read? value).map some

def orElse? (missing : α) (read? : Data → Option α) : Option Data → Option α
  | none => some missing
  | some value => read? value

end Data

end SourceEdit
