import SourceEdit.Proofs.Dict
import SourceEdit.Proofs.Text.ByteOrder
import SourceEdit.Registry

/-!
# Registration

Editors are registered one after another, in a registry that is empty to begin with or holds the
built-in ones. A name is bound to the first editor that comes with it and stays bound to that
editor; later ones are refused and change nothing. What a registry lists are therefore the first
editors of each name, in the order of their names, whatever the order of registration was.
-/

namespace SourceEdit

open Text (bytes)

/-! ## The first editor of a name -/

namespace Editor

variable {eds eds' : List Editor} {ed : Editor} {name : String}

def first? (eds : List Editor) (name : String) : Option Editor :=
  eds.find? (·.info.name = name)

theorem first?_append (eds more : List Editor) (name : String) :
    first? (eds ++ more) name = (first? eds name).or (first? more name) :=
  List.find?_append

theorem first?_singleton (ed : Editor) (name : String) :
    first? [ed] name = if ed.info.name = name then some ed else none := by
  rw [first?, List.find?_singleton]
  by_cases h : ed.info.name = name
  · rw [if_pos h, if_pos (decide_eq_true h)]
  · rw [if_neg h, if_neg (by simpa using h)]

theorem name_of_first? (h : first? eds name = some ed) : ed.info.name = name :=
  of_decide_eq_true (List.find?_some h :)

theorem first?_eq_some_iff (hdistinct : (eds.map (·.info.name)).Nodup) :
    first? eds name = some ed ↔ ed ∈ eds ∧ ed.info.name = name :=
  find?_key_eq_some_iff hdistinct

theorem first?_perm (h : eds.Perm eds') (hdistinct : (eds.map (·.info.name)).Nodup)
    (name : String) : first? eds name = first? eds' name := by
  have hdistinct' : (eds'.map (·.info.name)).Nodup := (h.map _).nodup_iff.mp hdistinct
  apply Option.ext
  intro ed
  rw [first?_eq_some_iff hdistinct, first?_eq_some_iff hdistinct', h.mem_iff]

/-- Put into a dictionary without looking, editors with distinct names are found as the first of
their names. -/
theorem get?_ofList_first? (hdistinct : (eds.map (·.info.name)).Nodup) (name : String) :
    (Dict.ofList (eds.map fun ed => (ed.info.name, ed))).get? name = first? eds name := by
  rw [Dict.get?_ofList]
  induction eds using List.reverseRecOn with
  | nil => rfl
  | append_singleton eds ed ih =>
      rw [List.map_append, List.nodup_append] at hdistinct
      obtain ⟨hinit, -, hnew⟩ := hdistinct
      rw [List.map_append, List.map_singleton, latest?_concat, ih hinit, first?_append,
        first?_singleton, Dict.under]
      by_cases h : ed.info.name = name
      · have hnone : first? eds name = none := by
          refine List.find?_eq_none.mpr fun ed' hed' hname => ?_
          refine hnew _ (List.mem_map_of_mem hed') _ (List.mem_singleton_self _) ?_
          exact (of_decide_eq_true hname).trans h.symm
        rw [if_pos h, hnone, Option.none_or, Option.some_or]
      · rw [if_neg h, Option.none_or, Option.or_none]

end Editor

open Editor (first?)

namespace Registry

variable {r r' : Registry} {ed : Editor} {eds eds' more : List Editor} {name : String}
  {e : RegistryError}

/-! ## Registrations -/

def tryRegister (r : Registry) (ed : Editor) : Registry × Except RegistryError Unit :=
  match r.register ed with
  | .ok r' => (r', .ok ())
  | .error e => (r, .error e)

def registerAll (r : Registry) (eds : List Editor) : Registry :=
  eds.foldl (fun r ed => (r.tryRegister ed).1) r

inductive Start where
  | nothing
  | builtins

def Start.editors : Start → List Editor
  | nothing => []
  | builtins => [.pomReport .pathExpressions, .addContent]

def Start.registry (catalog : Catalog) : Start → Registry
  | nothing => .empty catalog
  | builtins => .withBuiltins catalog

def built (catalog : Catalog) (start : Start) (eds : List Editor) : Registry :=
  (start.registry catalog).registerAll eds

theorem registerAll_cons (r : Registry) (ed : Editor) (eds : List Editor) :
    r.registerAll (ed :: eds) = (r.tryRegister ed).1.registerAll eds := rfl

theorem register_of_free (h : r.editors.get? ed.info.name = none) :
    r.register ed = .ok { r with editors := r.editors.insert ed.info.name ed } := by
  rw [register, if_neg]
  rw [Dict.contains_iff_isSome, h]
  exact Bool.false_ne_true

theorem register_of_taken (h : (r.editors.get? ed.info.name).isSome = true) :
    r.register ed = .error (.duplicateEditor ed.info.name) := by
  rw [register, if_pos (Dict.contains_iff_isSome.mpr h)]

/-- An editor is refused for its name only, and one that is refused changes nothing. -/
theorem tryRegister_of_refused (h : (r.tryRegister ed).2 = .error e) :
    e = .duplicateEditor ed.info.name ∧ (r.tryRegister ed).1 = r := by
  cases hget : r.editors.get? ed.info.name with
  | none => simp [tryRegister, register_of_free hget] at h
  | some ed' =>
      have htaken : r.register ed = _ := register_of_taken (by rw [hget]; rfl)
      rw [tryRegister, htaken] at h ⊢
      exact ⟨(Except.error.inj h).symm, rfl⟩

/-! ## Names and their editors -/

/-- A registry that has each name bound to the first of some editors that has it. -/
def BindsFirst (r : Registry) (eds : List Editor) : Prop :=
  ∀ name, r.editors.get? name = first? eds name

/-- **Step.** One more editor is bound if it is the first of its name. -/
theorem BindsFirst.tryRegister (h : r.BindsFirst eds) (ed : Editor) :
    (r.tryRegister ed).1.BindsFirst (eds ++ [ed]) := by
  intro name
  rw [Editor.first?_append, Editor.first?_singleton, ← h name, Registry.tryRegister]
  cases hget : r.editors.get? ed.info.name with
  | none =>
      rw [register_of_free hget]
      show (r.editors.insert ed.info.name ed).get? name = _
      rw [Dict.get?_insert]
      by_cases hname : ed.info.name = name
      · rw [if_pos hname.symm, if_pos hname, ← hname, hget, Option.none_or]
      · rw [if_neg (Ne.symm hname), if_neg hname, Option.or_none]
  | some ed' =>
      rw [register_of_taken (by rw [hget]; rfl)]
      show r.editors.get? name = _
      by_cases hname : ed.info.name = name
      · rw [← hname, hget, Option.some_or]
      · rw [if_neg hname, Option.or_none]

/-- **Run.** Editors that come later are bound where none of their name came before. -/
theorem BindsFirst.registerAll (h : r.BindsFirst eds) (more : List Editor) :
    (r.registerAll more).BindsFirst (eds ++ more) := by
  induction more generalizing r eds with
  | nil => rwa [List.append_nil]
  | cons ed more ih =>
      rw [registerAll_cons, List.append_cons]
      exact ih (h.tryRegister ed)

/-- The built-in editors are put in without looking whether their names are free, which they are. -/
theorem bindsFirst_registry (catalog : Catalog) (start : Start) :
    (start.registry catalog).BindsFirst start.editors := by
  cases start with
  | nothing => exact fun name => rfl
  | builtins =>
      have hdistinct : (Start.builtins.editors.map (·.info.name)).Nodup := by decide
      exact Editor.get?_ofList_first? hdistinct

theorem bindsFirst_built (catalog : Catalog) (start : Start) (eds : List Editor) :
    (built catalog start eds).BindsFirst (start.editors ++ eds) :=
  (bindsFirst_registry catalog start).registerAll eds

theorem catalog_tryRegister (r : Registry) (ed : Editor) :
    (r.tryRegister ed).1.catalog = r.catalog := by
  cases hget : r.editors.get? ed.info.name with
  | none => rw [tryRegister, register_of_free hget]
  | some ed' => rw [tryRegister, register_of_taken (by rw [hget]; rfl)]

theorem catalog_registerAll (r : Registry) (eds : List Editor) :
    (r.registerAll eds).catalog = r.catalog := by
  induction eds generalizing r with
  | nil => rfl
  | cons ed eds ih => rw [registerAll_cons, ih, catalog_tryRegister]

/-- Registries with the same patterns that bind the same names to the same editors are equal. -/
theorem BindsFirst.eq (h : r.BindsFirst eds) (h' : r'.BindsFirst eds')
    (hfirst : ∀ name, first? eds name = first? eds' name) (hcatalog : r.catalog = r'.catalog) :
    r = r' := by
  have heditors : r.editors = r'.editors :=
    Dict.ext_get? fun name => by rw [h name, h' name, hfirst]
  cases r
  cases r'
  cases heditors
  cases hcatalog
  rfl

/-! ## What is listed -/

theorem BindsFirst.mem_entries_iff (h : r.BindsFirst eds) {entry : String × Editor} :
    entry ∈ r.editors.entries ↔ first? eds entry.1 = some entry.2 := by
  rw [Dict.mem_entries_iff_get?, h]

theorem BindsFirst.map_name_list (h : r.BindsFirst eds) :
    r.list.map (·.name) = r.editors.keys := by
  rw [list, Dict.values, Dict.keys, List.map_map, List.map_map]
  refine List.map_congr_left fun entry hentry => ?_
  exact Editor.name_of_first? (h.mem_entries_iff.mp hentry)

theorem BindsFirst.mem_list_iff (h : r.BindsFirst eds) {info : EditorInfo} :
    info ∈ r.list ↔ ∃ ed, first? eds info.name = some ed ∧ ed.info = info := by
  rw [list, Dict.values, List.map_map, List.mem_map]
  constructor
  · rintro ⟨⟨name, ed⟩, hentry, rfl⟩
    have hfirst := h.mem_entries_iff.mp hentry
    obtain rfl : ed.info.name = name := Editor.name_of_first? hfirst
    exact ⟨ed, hfirst, rfl⟩
  · rintro ⟨ed, hfirst, rfl⟩
    exact ⟨(ed.info.name, ed), h.mem_entries_iff.mpr hfirst, rfl⟩

theorem BindsFirst.mem_names_iff (h : r.BindsFirst eds) :
    name ∈ r.list.map (·.name) ↔ (r.editors.get? name).isSome = true := by
  rw [h.map_name_list, Dict.mem_keys_iff]

/-- What can be seen of a registry to which some editors came, one after another. -/
structure Shows (r : Registry) (eds : List Editor) : Prop where
  /-- Each name is bound to the first editor that came with it. -/
  find : ∀ name, r.find name = match first? eds name with
    | some ed => .ok ed
    | none => .error (.unknownEditor name)
  /-- What is listed is what these editors are known by. -/
  list : ∀ info, info ∈ r.list ↔ ∃ ed, first? eds info.name = some ed ∧ ed.info = info
  /-- No name is listed twice, and names are listed in the order of their bytes. -/
  ascending : r.list.Pairwise fun a b => bytes a.name < bytes b.name
  /-- A tag selects those that carry it, in the same order. -/
  withTag : ∀ tag, r.withTag tag = r.list.filter fun info => decide (tag ∈ info.tags)
  size : r.size = r.list.length

theorem BindsFirst.shows (h : r.BindsFirst eds) : r.Shows eds := by
  refine ⟨fun name => ?_, fun _ => h.mem_list_iff, ?_, fun tag => ?_, ?_⟩
  · have hget := h name
    cases hfirst : first? eds name with
    | some ed => simp only [Registry.find, hget, hfirst]
    | none => simp only [Registry.find, hget, hfirst]
  · have hnames : (r.list.map (·.name)).Pairwise (· < ·) :=
      h.map_name_list ▸ r.editors.keys_pairwise
    exact (List.pairwise_map.mp hnames).imp fun hlt => (Text.lt_iff_bytes_lt _ _).mp hlt
  · refine List.filter_congr fun info _ => ?_
    rw [Bool.eq_iff_iff, decide_eq_true_iff]
    exact List.contains_iff_mem
  · rw [Registry.size, Dict.size, Registry.list, Dict.values, List.map_map, List.length_map]

/-! ## Any registrations -/

/-- **Registration is first come, first served.** After any registrations, from an empty registry or
from the built-in one, each name is bound to the first editor that came with it. The registry lists
these editors, each once, in the ascending order of the bytes of their names. One more editor is
taken exactly if its name is not listed; if not, the registry says so and stays as it is, and no
registrations that follow change what a name is bound to. Editors with distinct names make the same
registry in whatever order they are registered. -/
theorem registration_is_first_come (catalog : Catalog) (start : Start) (eds : List Editor) :
    (built catalog start eds).Shows (start.editors ++ eds) ∧
    (∀ ed, ((∃ r', (built catalog start eds).register ed = .ok r') ↔
        ed.info.name ∉ (built catalog start eds).list.map (·.name)) ∧
      ∀ e, ((built catalog start eds).tryRegister ed).2 = .error e →
        e = .duplicateEditor ed.info.name ∧
          ((built catalog start eds).tryRegister ed).1 = built catalog start eds) ∧
    (∀ name ed, (built catalog start eds).find name = .ok ed →
      ∀ more, (built catalog start (eds ++ more)).find name = .ok ed) ∧
    ∀ eds', eds.Perm eds' → (eds.map (·.info.name)).Nodup →
      built catalog start eds = built catalog start eds' := by
  have hbinds := bindsFirst_built catalog start eds
  refine ⟨hbinds.shows, fun ed => ⟨?_, fun e he => tryRegister_of_refused he⟩, ?_, ?_⟩
  · rw [hbinds.mem_names_iff]
    cases hget : (built catalog start eds).editors.get? ed.info.name with
    | none => simp [register_of_free hget]
    | some ed' =>
        have htaken : (built catalog start eds).register ed = _ :=
          register_of_taken (by rw [hget]; rfl)
        simp [htaken]
  · intro name ed hfind more
    rw [hbinds.shows.find] at hfind
    rw [(bindsFirst_built catalog start (eds ++ more)).shows.find, ← List.append_assoc,
      Editor.first?_append]
    cases hfirst : first? (start.editors ++ eds) name with
    | none =>
        rw [hfirst] at hfind
        cases hfind
    | some ed' =>
        rw [hfirst] at hfind
        exact hfind
  · intro eds' hperm hdistinct
    refine hbinds.eq (bindsFirst_built catalog start eds') (fun name => ?_) ?_
    · rw [Editor.first?_append, Editor.first?_append, Editor.first?_perm hperm hdistinct]
    · rw [built, built, catalog_registerAll, catalog_registerAll]

end Registry

end SourceEdit
