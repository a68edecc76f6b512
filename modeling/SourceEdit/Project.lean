import SourceEdit.File

/-!
# Projects

A project is a sequence of files with distinct, valid paths, in the order in which they were
added. An update keeps the place of a file; a file that is removed and added again comes last.
-/

namespace SourceEdit

inductive ProjectError where
  | duplicatePath (path : String)
  | notFound (path : String)
  | invalidPath (path : String)
  deriving Repr, DecidableEq

def ProjectError.message : ProjectError → String
  | .duplicatePath p => "a file already exists at '" ++ p ++ "'"
  | .notFound p => "no file exists at '" ++ p ++ "'"
  | .invalidPath p => "invalid file path '" ++ p ++ "'"

/-- Files with distinct and valid paths, in order. -/
structure Project where
  files : List File
  nodup : (files.map (·.path)).Nodup
  valid : ∀ f ∈ files, isValidPath f.path = true

namespace Project

def empty : Project := ⟨[], by simp, by simp⟩

instance : EmptyCollection Project := ⟨empty⟩

instance : Inhabited Project := ⟨empty⟩

def size (p : Project) : Nat := p.files.length

def isEmpty (p : Project) : Bool := p.files.isEmpty

def find? (p : Project) (path : String) : Option File :=
  p.files.find? (·.path = path)

def contains (p : Project) (path : String) : Bool :=
  p.files.any (·.path = path)

theorem contains_iff {p : Project} {path : String} :
    p.contains path = true ↔ path ∈ p.files.map (·.path) := by
  simp [contains]

/-- Adds a file at the end. An invalid path is refused before a path that is taken. -/
def add (p : Project) (path content : String) : Except ProjectError Project :=
  if hv : isValidPath path = true then
    if hc : p.contains path = true then .error (.duplicatePath path)
    else .ok
      { files := p.files ++ [⟨path, content⟩]
        nodup := by
          rw [List.map_append, List.nodup_append]
          refine ⟨p.nodup, by simp, fun a ha b hb => ?_⟩
          simp only [List.map_cons, List.map_nil, List.mem_singleton] at hb
          rintro rfl
          exact hc (contains_iff.2 (hb ▸ ha))
        valid := by
          intro f hf
          rcases List.mem_append.1 hf with h | h
          · exact p.valid f h
          · rw [List.mem_singleton.1 h]; exact hv }
  else .error (.invalidPath path)

def replaceAt (path content : String) (f : File) : File :=
  if f.path = path then { f with content } else f

@[simp] theorem replaceAt_path (path content : String) (f : File) :
    (replaceAt path content f).path = f.path := by
  unfold replaceAt; split <;> rfl

/-- Gives the file at a path another content, at the same place in the order. -/
def update (p : Project) (path content : String) : Except ProjectError Project :=
  if p.contains path then .ok
    { files := p.files.map (replaceAt path content)
      nodup := by simpa [List.map_map, Function.comp_def] using p.nodup
      valid := by
        intro f hf
        obtain ⟨g, hg, rfl⟩ := List.mem_map.1 hf
        simpa using p.valid g hg }
  else .error (.notFound path)

def remove (p : Project) (path : String) : Except ProjectError (File × Project) :=
  match p.find? path with
  | none => .error (.notFound path)
  | some file => .ok (file,
    { files := p.files.filter (·.path ≠ path)
      nodup := p.nodup.sublist ((List.filter_sublist (l := p.files)).map _)
      valid := fun f hf => p.valid f (List.mem_filter.1 hf).1 })

/-- The project of some files, added one by one; the first refusal ends the attempt. -/
def ofFiles (files : List (String × String)) : Except ProjectError Project :=
  files.foldlM (fun p f => p.add f.1 f.2) ∅

end Project

end SourceEdit
