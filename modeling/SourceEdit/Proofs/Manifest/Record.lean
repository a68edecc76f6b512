import SourceEdit.Manifest.Reader

/-!
# Records with one entry left open

What a record of a manifest is read as, entry by entry, and how the reading depends on the value of
one entry: the entries under other names are read as before.
-/

namespace SourceEdit.Manifest

open Yaml (Document Node Properties)

variable {α : Type}

/-! ## What a record is read as -/

/-- What the entry under a name is read as, unless it is missing or counts as absent. -/
def readField? (d : Document) (es : List (String × Node)) (name : String) (read : Node → Option α) :
    Option (Option α) := do
  match ← field? es name with
  | none => some none
  | some n => optional? read d n

inductive TextKey where
  | group
  | artifact
  | version
  | requires
  | repo
  | branch
  | sha
  deriving DecidableEq, Repr

namespace TextKey

def name : TextKey → String
  | .group => "group"
  | .artifact => "artifact"
  | .version => "version"
  | .requires => "requires"
  | .repo => "repo"
  | .branch => "branch"
  | .sha => "sha"

def get (p : Part) : TextKey → Option String
  | .group => p.group
  | .artifact => p.artifact
  | .version => p.version
  | .requires => p.requires
  | .repo => p.repo
  | .branch => p.branch
  | .sha => p.sha

def set (p : Part) (s : String) : TextKey → Part
  | .group => { p with group := some s }
  | .artifact => { p with artifact := some s }
  | .version => { p with version := some s }
  | .requires => { p with requires := some s }
  | .repo => { p with repo := some s }
  | .branch => { p with branch := some s }
  | .sha => { p with sha := some s }

theorem name_inj {key key' : TextKey} (h : key.name = key'.name) : key = key' := by
  cases key <;> cases key' <;> first | rfl | exact absurd h (by decide)

theorem get_set_self (key : TextKey) (p : Part) (s : String) : key.get (key.set p s) = some s := by
  cases key <;> rfl

theorem get_set_of_ne {key key' : TextKey} (h : key ≠ key') (p : Part) (s : String) :
    key'.get (key.set p s) = key'.get p := by
  cases key <;> cases key' <;> first | rfl | exact absurd rfl h

end TextKey

inductive ListKey where
  | dependencies
  | extensions
  deriving DecidableEq, Repr

namespace ListKey

def name : ListKey → String
  | .dependencies => "dependencies"
  | .extensions => "extensions"

def get (p : Part) : ListKey → List String
  | .dependencies => p.dependencies
  | .extensions => p.extensions

def set (p : Part) (texts : List String) : ListKey → Part
  | .dependencies => { p with dependencies := texts }
  | .extensions => { p with extensions := texts }

theorem name_inj {list list' : ListKey} (h : list.name = list'.name) : list = list' := by
  cases list <;> cases list' <;> first | rfl | exact absurd h (by decide)

theorem get_set (list : ListKey) (p : Part) (texts : List String) :
    list.get (list.set p texts) = texts := by
  cases list <;> rfl

theorem get_set_of_ne {list list' : ListKey} (h : list ≠ list') (p : Part) (texts : List String) :
    list'.get (list.set p texts) = list'.get p := by
  cases list <;> cases list' <;> first | rfl | exact absurd rfl h

theorem name_ne_textKey (list : ListKey) (key : TextKey) : list.name ≠ key.name := by
  cases list <;> cases key <;> decide

end ListKey

/-- Whether named entries are read as a part, each of them on its own. -/
structure ReadsAs (d : Document) (es : List (String × Node)) (p : Part) : Prop where
  texts : ∀ key : TextKey, readField? d es key.name (value? d) = some (key.get p)
  lists : ∀ list : ListKey,
    (readField? d es list.name (coordinateList? d)).map (·.getD []) = some (list.get p)
  repositories :
    (readField? d es "repositories" (repositories? d)).map (·.getD []) = some p.repositories
  excludes : (readField? d es "excludes" (excludes? d)).map (·.getD {}) = some p.excludes

theorem part?_eq (d : Document) (n : Node) : part? d n = (do
    let es ← namedEntries? d n
    some {
      group := ← readField? d es "group" (value? d)
      artifact := ← readField? d es "artifact" (value? d)
      version := ← readField? d es "version" (value? d)
      requires := ← readField? d es "requires" (value? d)
      dependencies := (← readField? d es "dependencies" (coordinateList? d)).getD []
      extensions := (← readField? d es "extensions" (coordinateList? d)).getD []
      repositories := (← readField? d es "repositories" (repositories? d)).getD []
      excludes := (← readField? d es "excludes" (excludes? d)).getD {}
      repo := ← readField? d es "repo" (value? d)
      branch := ← readField? d es "branch" (value? d)
      sha := ← readField? d es "sha" (value? d) }) := rfl

theorem part?_eq_some_iff {d : Document} {n : Node} {p : Part} :
    part? d n = some p ↔ ∃ es, namedEntries? d n = some es ∧ ReadsAs d es p := by
  rw [part?_eq]
  -- the reader takes up one field after the other; `ReadsAs` has them side by side
  constructor
  · intro h
    obtain ⟨es, hes, h⟩ := Option.bind_eq_some_iff.mp h
    obtain ⟨group, hgroup, h⟩ := Option.bind_eq_some_iff.mp h
    obtain ⟨artifact, hartifact, h⟩ := Option.bind_eq_some_iff.mp h
    obtain ⟨version, hversion, h⟩ := Option.bind_eq_some_iff.mp h
    obtain ⟨requires, hrequires, h⟩ := Option.bind_eq_some_iff.mp h
    obtain ⟨dependencies, hdependencies, h⟩ := Option.bind_eq_some_iff.mp h
    obtain ⟨extensions, hextensions, h⟩ := Option.bind_eq_some_iff.mp h
    obtain ⟨repositories, hrepositories, h⟩ := Option.bind_eq_some_iff.mp h
    obtain ⟨excludes, hexcludes, h⟩ := Option.bind_eq_some_iff.mp h
    obtain ⟨repo, hrepo, h⟩ := Option.bind_eq_some_iff.mp h
    obtain ⟨branch, hbranch, h⟩ := Option.bind_eq_some_iff.mp h
    obtain ⟨sha, hsha, h⟩ := Option.bind_eq_some_iff.mp h
    cases h
    refine ⟨es, hes, ⟨?_, ?_, by rw [hrepositories]; rfl, by rw [hexcludes]; rfl⟩⟩
    · intro key
      cases key <;> assumption
    · intro list
      cases list with
      | dependencies => exact congrArg (Option.map _) hdependencies
      | extensions => exact congrArg (Option.map _) hextensions
  · rintro ⟨es, hes, h⟩
    obtain ⟨dependencies, hdependencies, hd⟩ := Option.map_eq_some_iff.mp (h.lists .dependencies)
    obtain ⟨extensions, hextensions, he⟩ := Option.map_eq_some_iff.mp (h.lists .extensions)
    obtain ⟨repositories, hrepositories, hr⟩ := Option.map_eq_some_iff.mp h.repositories
    obtain ⟨excludes, hexcludes, hx⟩ := Option.map_eq_some_iff.mp h.excludes
    have hgroup : readField? d es "group" (value? d) = some p.group := h.texts .group
    have hartifact : readField? d es "artifact" (value? d) = some p.artifact := h.texts .artifact
    have hversion : readField? d es "version" (value? d) = some p.version := h.texts .version
    have hrequires : readField? d es "requires" (value? d) = some p.requires := h.texts .requires
    have hrepo : readField? d es "repo" (value? d) = some p.repo := h.texts .repo
    have hbranch : readField? d es "branch" (value? d) = some p.branch := h.texts .branch
    have hsha : readField? d es "sha" (value? d) = some p.sha := h.texts .sha
    replace hdependencies :
        readField? d es "dependencies" (coordinateList? d) = some dependencies :=
      hdependencies
    replace hextensions : readField? d es "extensions" (coordinateList? d) = some extensions :=
      hextensions
    replace hd : dependencies.getD [] = p.dependencies := hd
    replace he : extensions.getD [] = p.extensions := he
    simp only [hes, hgroup, hartifact, hversion, hrequires, hdependencies, hextensions,
      hrepositories, hexcludes, hrepo, hbranch, hsha, hd, he, hr, hx, Option.bind_eq_bind,
      Option.bind_some]

/-! ## A mapping with a gap -/

/-- A mapping without the value of one of its entries. -/
structure MappingGap where
  props : Properties := {}
  before : List (Node × Node) := []
  key : Node
  after : List (Node × Node) := []

def MappingGap.fill (g : MappingGap) (v : Node) : Node :=
  .mapping g.props (g.before ++ (g.key, v) :: g.after)

theorem namedEntries?_fill (d : Document) (g : MappingGap) {name : String}
    (hkey : text? d g.key = some name) {v : Node} {es : List (String × Node)}
    (h : namedEntries? d (g.fill v) = some es) :
    ∃ a b, ∀ w, namedEntries? d (g.fill w) = some (a ++ (name, w) :: b) := by
  have hfill : ∀ w, namedEntries? d (g.fill w) =
      (g.before ++ (g.key, w) :: g.after).mapM (fun e => do some (← text? d e.1, e.2)) := fun _ => rfl
  simp only [hfill, List.mapM_append, List.mapM_cons, hkey] at h ⊢
  obtain ⟨a, ha, h⟩ := Option.bind_eq_some_iff.mp h
  obtain ⟨rest, hrest, _⟩ := Option.bind_eq_some_iff.mp h
  obtain ⟨_, _, hrest⟩ := Option.bind_eq_some_iff.mp hrest
  obtain ⟨b, hb, _⟩ := Option.bind_eq_some_iff.mp hrest
  refine ⟨a, b, fun w => ?_⟩
  rw [ha, hb]
  rfl

theorem field?_of_ne {name other : String} (h : name ≠ other) (a b : List (String × Node))
    (v : Node) : field? (a ++ (name, v) :: b) other = field? (a ++ b) other := by
  have hname : (name == other) = false := by simpa using h
  rw [field?, field?, List.filter_append, List.filter_append,
    List.filter_cons_of_neg (by simp [hname])]

/-- A name that stands twice is refused, whatever the values are. -/
theorem field?_self {name : String} {a b : List (String × Node)} {v : Node} {o : Option Node}
    (h : field? (a ++ (name, v) :: b) name = some o) (w : Node) :
    field? (a ++ (name, w) :: b) name = some (some w) := by
  have hsplit : ∀ u, (a ++ (name, u) :: b).filter (·.1 == name) =
      a.filter (·.1 == name) ++ (name, u) :: b.filter (·.1 == name) := by
    intro u
    rw [List.filter_append, List.filter_cons_of_pos (by simp)]
  unfold field? at h ⊢
  rw [hsplit] at h ⊢
  cases ha : a.filter (·.1 == name) with
  | nil =>
      cases hb : b.filter (·.1 == name) with
      | nil => rfl
      | cons e es => rw [ha, hb] at h; cases h
  | cons e es =>
      rw [ha] at h
      cases es <;> cases h

theorem readField?_of_ne (d : Document) {name other : String} (h : name ≠ other)
    (a b : List (String × Node)) (v w : Node) (read : Node → Option α) :
    readField? d (a ++ (name, v) :: b) other read =
      readField? d (a ++ (name, w) :: b) other read := by
  rw [readField?, readField?, field?_of_ne h, field?_of_ne h]

theorem readField?_self (d : Document) {name : String} {a b : List (String × Node)} {v : Node}
    {read : Node → Option α} {o : Option α}
    (h : readField? d (a ++ (name, v) :: b) name read = some o)
    {β : Type} (read' : Node → Option β) (w : Node) :
    readField? d (a ++ (name, w) :: b) name read' = optional? read' d w := by
  obtain ⟨found, hfound, _⟩ := Option.bind_eq_some_iff.mp h
  rw [readField?, field?_self hfound w]
  rfl

/-- Another value of a text entry changes what is read under its name only. -/
theorem ReadsAs.replace_text {d : Document} {a b : List (String × Node)} {key : TextKey}
    {v w : Node}
    {p : Part} {s : String} (h : ReadsAs d (a ++ (key.name, v) :: b) p)
    (hw : optional? (value? d) d w = some (some s)) :
    ReadsAs d (a ++ (key.name, w) :: b) (key.set p s) where
  texts := by
    intro key'
    by_cases hne : key = key'
    · subst hne
      rw [readField?_self d (h.texts key), hw, TextKey.get_set_self]
    · rw [readField?_of_ne d (fun e => hne (TextKey.name_inj e)) a b w v, TextKey.get_set_of_ne hne]
      exact h.texts key'
  lists := by
    intro list
    rw [readField?_of_ne d (list.name_ne_textKey key).symm a b w v, h.lists list]
    cases key <;> rfl
  repositories := by
    rw [readField?_of_ne d (by cases key <;> decide) a b w v, h.repositories]
    cases key <;> rfl
  excludes := by
    rw [readField?_of_ne d (by cases key <;> decide) a b w v, h.excludes]
    cases key <;> rfl

theorem ReadsAs.replace_list {d : Document} {a b : List (String × Node)} {list : ListKey}
    {v w : Node} {p : Part} {texts : List String} (h : ReadsAs d (a ++ (list.name, v) :: b) p)
    (hw : optional? (coordinateList? d) d w = some (some texts)) :
    ReadsAs d (a ++ (list.name, w) :: b) (list.set p texts) where
  texts := by
    intro key
    rw [readField?_of_ne d (list.name_ne_textKey key) a b w v, h.texts key]
    cases list <;> rfl
  lists := by
    intro list'
    by_cases hne : list = list'
    · subst hne
      obtain ⟨o, ho, _⟩ := Option.map_eq_some_iff.mp (h.lists list)
      rw [readField?_self d ho, hw, ListKey.get_set]
      rfl
    · rw [readField?_of_ne d (fun e => hne (ListKey.name_inj e)) a b w v, h.lists list',
        ListKey.get_set_of_ne hne]
  repositories := by
    rw [readField?_of_ne d (by cases list <;> decide) a b w v, h.repositories]
    cases list <;> rfl
  excludes := by
    rw [readField?_of_ne d (by cases list <;> decide) a b w v, h.excludes]
    cases list <;> rfl

/-- **An entry of a record** is read from what fills the gap, the rest of the record as before.
What another value of the entry changes in the part is told by `set`. -/
theorem part?_fill {d : Document} {g : MappingGap} {name : String}
    (hname : text? d g.key = some name) {read : Node → Option α} (set : Part → α → Part)
    (hfield : ∀ {es q}, ReadsAs d es q → ∃ o, readField? d es name read = some o)
    (hreplace : ∀ {a b v w q x}, ReadsAs d (a ++ (name, v) :: b) q →
      optional? read d w = some (some x) → ReadsAs d (a ++ (name, w) :: b) (set q x))
    {w : Node} {p : Part} (hread : part? d (g.fill w) = some p) {v : Node}
    (hv : isAbsent? d v = some false) : part? d (g.fill v) = (read v).map (set p) := by
  obtain ⟨es, hes, hreads⟩ := part?_eq_some_iff.mp hread
  obtain ⟨a, b, hfill⟩ := namedEntries?_fill d g hname hes
  obtain rfl := Option.some.inj (hes.symm.trans (hfill w))
  have hoptional : optional? read d v = (read v).map some := by
    rw [optional?, hv]
    rfl
  cases hval : read v with
  | some x =>
      rw [hval] at hoptional
      exact part?_eq_some_iff.mpr ⟨_, hfill v, hreplace hreads hoptional⟩
  | none =>
      refine Option.eq_none_iff_forall_ne_some.mpr fun p' hp' => ?_
      obtain ⟨es', hes', hreads'⟩ := part?_eq_some_iff.mp hp'
      obtain rfl := Option.some.inj (hes'.symm.trans (hfill v))
      obtain ⟨o, ho⟩ := hfield hreads'
      rw [readField?_self d ho, hoptional, hval] at ho
      cases ho

theorem part?_fill_text {d : Document} {g : MappingGap} {key : TextKey}
    (hkey : text? d g.key = some key.name) {w : Node} {p : Part}
    (hread : part? d (g.fill w) = some p) {v : Node} (hv : isAbsent? d v = some false) :
    part? d (g.fill v) = (value? d v).map (key.set p) :=
  part?_fill hkey (key.set · ·) (fun h => ⟨_, h.texts key⟩) (fun h hw => h.replace_text hw) hread hv

theorem part?_fill_list {d : Document} {g : MappingGap} {list : ListKey}
    (hkey : text? d g.key = some list.name) {w : Node} {p : Part}
    (hread : part? d (g.fill w) = some p) {v : Node} (hv : isAbsent? d v = some false) :
    part? d (g.fill v) = (coordinateList? d v).map (list.set p) :=
  part?_fill hkey (list.set · ·)
    (fun h => (Option.map_eq_some_iff.mp (h.lists list)).imp fun _ => And.left)
    (fun h hw => h.replace_list hw) hread hv

end SourceEdit.Manifest
