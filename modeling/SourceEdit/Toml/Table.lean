import SourceEdit.Data

/-!
# Tables of TOML

The tables that a document builds up, statement by statement. A table comes into being by its
header, as a parent of one, by a dotted key, or as an element of an array of tables; how it came
into being decides what may still be added to it.
-/

namespace SourceEdit.Toml

/-- A table that has been named only as the parent of other tables is not defined yet. -/
inductive Origin where
  | header
  | parent
  | dottedKey
  deriving Repr, DecidableEq

inductive Item where
  /-- A value that has been written out; nothing can be added to it. -/
  | value (data : Data)
  | table (origin : Origin) (entries : List (String × Item))
  /-- An array of tables that all have a header. The last of them is open. -/
  | tables (closed : List (List (String × Item))) (last : List (String × Item))

abbrev Entries := List (String × Item)

namespace Entries

def put (key : String) (item : Item) : Entries → Entries
  | [] => [(key, item)]
  | (k, i) :: rest => if k = key then (key, item) :: rest else (k, i) :: put key item rest

/-- Assigns a value to a dotted key. The tables on the way must have come into being by such keys;
only the tables of an array may be passed through. -/
def assign (value : Data) : List String → Entries → Option Entries
  | [], _ => none
  | [key], es => if (es.lookup key).isSome then none else some (es ++ [(key, .value value)])
  | key :: next :: path, es =>
    match es.lookup key with
    | none => (assign value (next :: path) []).map fun sub => es.put key (.table .dottedKey sub)
    | some (.table origin sub) =>
      if origin = .header ∨ (origin = .parent ∧ path = []) then none
      else (assign value (next :: path) sub).map fun sub => es.put key (.table origin sub)
    | some (.tables closed last) =>
      if path = [] then none
      else (assign value (next :: path) last).map fun last => es.put key (.tables closed last)
    | some (.value _) => none

def assignAll (es : Entries) (values : List (List String × Data)) : Option Entries :=
  values.foldlM (fun es (key, value) => assign value key es) es

/-- Changes what stands under a header's path. Parents that are missing come into being; in an
array of tables, the last one is meant. -/
def alter (change : Option Item → Option Item) : List String → Entries → Option Entries
  | [], _ => none
  | [key], es => (change (es.lookup key)).map fun item => es.put key item
  | key :: next :: path, es =>
    match es.lookup key with
    | none =>
      (alter change (next :: path) []).map fun sub => es.put key (.table .parent sub)
    | some (.table origin sub) =>
      (alter change (next :: path) sub).map fun sub => es.put key (.table origin sub)
    | some (.tables closed last) =>
      (alter change (next :: path) last).map fun last => es.put key (.tables closed last)
    | some (.value _) => none

end Entries

structure Section where
  /-- Whether the header adds a table to an array. -/
  inArray : Bool
  path : List String
  values : List (List String × Data)

/-- The table of a section. It may have been a parent before, and must not have been defined. -/
def Section.item (s : Section) (before : Option Item) : Option Item :=
  if s.inArray then
    match before with
    | none => (Entries.assignAll [] s.values).map (.tables [] ·)
    | some (.tables closed last) =>
      (Entries.assignAll [] s.values).map (.tables (closed ++ [last]) ·)
    | some _ => none
  else
    match before with
    | none => (Entries.assignAll [] s.values).map (.table .header ·)
    | some (.table .parent es) => (Entries.assignAll es s.values).map (.table .header ·)
    | some _ => none

mutual

def Item.toData : Item → Data
  | .value data => data
  | .table _ es => .record (fieldsOf es)
  | .tables closed last => .list (recordsOf closed ++ [.record (fieldsOf last)])

def fieldsOf : List (String × Item) → List (String × Data)
  | [] => []
  | (key, item) :: rest => (key, item.toData) :: fieldsOf rest

def recordsOf : List (List (String × Item)) → List Data
  | [] => []
  | es :: rest => .record (fieldsOf es) :: recordsOf rest

end

def dataOf? (values : List (List String × Data)) (sections : List Section) : Option Data := do
  let root ← Entries.assignAll [] values
  let root ← sections.foldlM (fun es s => Entries.alter s.item s.path es) root
  return .record (fieldsOf root)

end SourceEdit.Toml
