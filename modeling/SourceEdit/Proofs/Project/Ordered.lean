import SourceEdit.Project
import SourceEdit.Proofs.Latest
import SourceEdit.Proofs.Path

/-!
# Projects as insertion-ordered maps

The reference is an insertion-ordered map of texts: its keys in the order in which they came, and
what each of them holds. Every call on a project is answered as the map answers it and does to the
project what it does to the map, so that after any run of calls the two agree in all that can be
asked. A view of the project as such a map turns each call into the same call on the map.
-/

namespace SourceEdit

inductive Change where
  | add (path content : String)
  | update (path content : String)
  | remove (path : String)
  deriving Repr, DecidableEq

/-- What a call answers: why it is refused, and otherwise the file that it took out, if any. -/
abbrev Answer := Except ProjectError (Option File)

/-! ## The reference -/

/-- An insertion-ordered map of texts. -/
structure OrderedMap where
  order : List String
  content : String → Option String

namespace OrderedMap

def ofPairs (pairs : List (String × String)) : OrderedMap where
  order := pairs.map (·.1)
  content key := (pairs.find? (·.1 = key)).map (·.2)

def hold (m : OrderedMap) (key : String) (content : Option String) : String → Option String :=
  fun k => if k = key then content else m.content k

/-- What becomes of the map in a call, and the answer. A new key comes last, an update keeps the
place of its key, and a removal the order of all others. -/
def perform (m : OrderedMap) : Change → OrderedMap × Answer
  | .add path content =>
    if ¬ WellFormedPath path then (m, .error (.invalidPath path))
    else if path ∈ m.order then (m, .error (.duplicatePath path))
    else (⟨m.order ++ [path], m.hold path (some content)⟩, .ok none)
  | .update path content =>
    if path ∈ m.order then (⟨m.order, m.hold path (some content)⟩, .ok none)
    else (m, .error (.notFound path))
  | .remove path =>
    match m.content path with
    | some content => (⟨m.order.erase path, m.hold path none⟩, .ok (some ⟨path, content⟩))
    | none => (m, .error (.notFound path))

def after (m : OrderedMap) (cs : List Change) : OrderedMap :=
  cs.foldl (fun m c => (m.perform c).1) m

def files (m : OrderedMap) : List File :=
  m.order.filterMap fun path => (m.content path).map (File.mk path)

end OrderedMap

/-! ## Calls on a project -/

namespace Project

def perform (p : Project) : Change → Project × Answer
  | .add path content =>
    match p.add path content with
    | .ok p' => (p', .ok none)
    | .error e => (p, .error e)
  | .update path content =>
    match p.update path content with
    | .ok p' => (p', .ok none)
    | .error e => (p, .error e)
  | .remove path =>
    match p.remove path with
    | .ok (file, p') => (p', .ok (some file))
    | .error e => (p, .error e)

def after (p : Project) (cs : List Change) : Project :=
  cs.foldl (fun p c => (p.perform c).1) p

variable {p p' : Project} {path key content : String} {file : File}

theorem after_cons (p : Project) (c : Change) (cs : List Change) :
    p.after (c :: cs) = (p.perform c).1.after cs := rfl

theorem after_append (p : Project) (cs ds : List Change) :
    p.after (cs ++ ds) = (p.after cs).after ds :=
  List.foldl_append

/-! ### Looking up -/

theorem find?_eq_some_iff : p.find? path = some file ↔ file ∈ p.files ∧ file.path = path :=
  find?_key_eq_some_iff p.nodup

theorem find?_eq_none_iff : p.find? path = none ↔ path ∉ p.files.map (·.path) := by
  rw [find?, List.find?_eq_none, List.mem_map]
  constructor
  · rintro hnone ⟨f, hf, hpath⟩
    exact hnone f hf (decide_eq_true hpath)
  · intro hnone f hf hpath
    exact hnone ⟨f, hf, of_decide_eq_true hpath⟩

theorem contains_iff_find? : p.contains path = true ↔ ∃ file, p.find? path = some file := by
  rw [contains_iff]
  cases hfind : p.find? path with
  | none => simpa using find?_eq_none_iff.mp hfind
  | some file =>
      obtain ⟨hmem, rfl⟩ := find?_eq_some_iff.mp hfind
      exact ⟨fun _ => ⟨file, rfl⟩, fun _ => List.mem_map_of_mem hmem⟩

/-! ### What the calls do -/

theorem add_of_new (hpath : WellFormedPath path) (hnew : path ∉ p.files.map (·.path))
    (content : String) :
    ∃ p', p.add path content = .ok p' ∧ p'.files = p.files ++ [⟨path, content⟩] := by
  have hcontains : ¬ p.contains path = true := fun h => hnew (contains_iff.mp h)
  rw [add, dif_pos (isValidPath_iff_wellFormed.mpr hpath), dif_neg hcontains]
  exact ⟨_, rfl, rfl⟩

theorem add_of_malformed (hpath : ¬ WellFormedPath path) :
    p.add path content = .error (.invalidPath path) := by
  rw [add, dif_neg fun h => hpath (isValidPath_iff_wellFormed.mp h)]

theorem add_of_taken (hpath : WellFormedPath path) (htaken : path ∈ p.files.map (·.path)) :
    p.add path content = .error (.duplicatePath path) := by
  rw [add, dif_pos (isValidPath_iff_wellFormed.mpr hpath), dif_pos (contains_iff.mpr htaken)]

theorem update_of_mem (hmem : path ∈ p.files.map (·.path)) (content : String) :
    ∃ p', p.update path content = .ok p' ∧ p'.files = p.files.map (replaceAt path content) := by
  rw [update, if_pos (contains_iff.mpr hmem)]
  exact ⟨_, rfl, rfl⟩

theorem find?_replaced (hfiles : p'.files = p.files.map (replaceAt path content)) (key : String) :
    p'.find? key = (p.find? key).map (replaceAt path content) := by
  have hpaths : ((fun f : File => decide (f.path = key)) ∘ replaceAt path content) =
      fun f => decide (f.path = key) := funext fun f => by
    rw [Function.comp_apply, replaceAt_path]
  rw [find?, hfiles, List.find?_map, hpaths]
  rfl

theorem update_of_notMem (hmem : path ∉ p.files.map (·.path)) :
    p.update path content = .error (.notFound path) := by
  rw [update, if_neg fun h => hmem (contains_iff.mp h)]

theorem remove_of_some (hfile : p.find? path = some file) :
    ∃ p', p.remove path = .ok (file, p') ∧ p'.files = p.files.filter (·.path ≠ path) := by
  unfold remove
  split
  · next hnone => rw [hnone] at hfile; cases hfile
  · next found hfound =>
    obtain rfl := Option.some.inj (hfound.symm.trans hfile)
    exact ⟨_, rfl, rfl⟩

theorem remove_of_none (hfile : p.find? path = none) :
    p.remove path = .error (.notFound path) := by
  unfold remove
  split
  · rfl
  · next found hfound => rw [hfound] at hfile; cases hfile

/-! ## The view -/

def view (p : Project) : OrderedMap where
  order := p.files.map (·.path)
  content path := (p.find? path).map (·.content)

theorem find?_eq_view (p : Project) (path : String) :
    p.find? path = (p.view.content path).map (File.mk path) := by
  cases hfind : p.find? path with
  | none => simp [view, hfind]
  | some file =>
      obtain ⟨-, rfl⟩ := find?_eq_some_iff.mp hfind
      simp [view, hfind]

theorem files_view (p : Project) : p.view.files = p.files := by
  have hself : ∀ f ∈ p.files, (p.view.content f.path).map (File.mk f.path) = some f := by
    intro f hf
    rw [← find?_eq_view]
    exact find?_eq_some_iff.mpr ⟨hf, rfl⟩
  show (p.files.map (·.path)).filterMap _ = p.files
  rw [List.filterMap_map]
  calc p.files.filterMap ((fun path => (p.view.content path).map (File.mk path)) ∘ (·.path))
      = p.files.filterMap some := List.filterMap_congr hself
    _ = p.files := List.filterMap_some

theorem view_of_added (hnew : path ∉ p.files.map (·.path))
    (hfiles : p'.files = p.files ++ [⟨path, content⟩]) :
    p'.view = ⟨p.view.order ++ [path], p.view.hold path (some content)⟩ := by
  have horder : p'.files.map (·.path) = p.files.map (·.path) ++ [path] := by
    rw [hfiles, List.map_append]
    rfl
  have hcontent : p'.view.content = p.view.hold path (some content) := by
    funext key
    show (p'.files.find? fun f => decide (f.path = key)).map (·.content) = _
    rw [hfiles, List.find?_append]
    by_cases hkey : key = path
    · subst hkey
      have hnone : (p.files.find? fun f => decide (f.path = key)) = none :=
        find?_eq_none_iff.mpr hnew
      rw [hnone, Option.none_or, OrderedMap.hold, if_pos rfl]
      simp
    · have hother : ([⟨path, content⟩] : List File).find? (fun f => decide (f.path = key)) =
          none := by
        simpa using fun h : path = key => hkey h.symm
      rw [hother, Option.or_none, OrderedMap.hold, if_neg hkey]
      rfl
  rw [← hcontent, view, horder]
  rfl

theorem view_of_updated (hmem : path ∈ p.files.map (·.path))
    (hfiles : p'.files = p.files.map (replaceAt path content)) :
    p'.view = ⟨p.view.order, p.view.hold path (some content)⟩ := by
  have horder : p'.files.map (·.path) = p.files.map (·.path) := by
    rw [hfiles, List.map_map]
    exact List.map_congr_left fun f _ => replaceAt_path path content f
  have hcontent : p'.view.content = p.view.hold path (some content) := by
    funext key
    show (p'.find? key).map (·.content) = _
    rw [find?_replaced hfiles]
    by_cases hkey : key = path
    · subst hkey
      obtain ⟨file, hfile⟩ := contains_iff_find?.mp (contains_iff.mpr hmem)
      rw [hfile, OrderedMap.hold, if_pos rfl, Option.map_some, replaceAt,
        if_pos (find?_eq_some_iff.mp hfile).2]
      rfl
    · rw [OrderedMap.hold, if_neg hkey]
      cases hfile : p.find? key with
      | none => simp [view, hfile]
      | some file =>
          have hother : ¬ file.path = path := (find?_eq_some_iff.mp hfile).2 ▸ hkey
          simp [view, hfile, replaceAt, hother]
  rw [← hcontent, view, horder]
  rfl

/-- After a removal, a path holds what it held before, and the one taken out holds nothing. -/
theorem find?_removed (hfiles : p'.files = p.files.filter (·.path ≠ path)) (key : String) :
    p'.find? key = if key = path then none else p.find? key := by
  refine Option.ext fun file => ?_
  rw [find?_eq_some_iff, hfiles, List.mem_filter, decide_eq_true_eq]
  by_cases hkey : key = path
  · rw [if_pos hkey, hkey]
    simp only [reduceCtorEq, iff_false, not_and]
    exact fun h heq => h.2 heq
  · rw [if_neg hkey, find?_eq_some_iff]
    constructor
    · rintro ⟨⟨hmem, -⟩, hpath⟩
      exact ⟨hmem, hpath⟩
    · rintro ⟨hmem, rfl⟩
      exact ⟨⟨hmem, hkey⟩, rfl⟩

/-- A removal takes one path out of the order. -/
theorem view_of_removed (hfiles : p'.files = p.files.filter (·.path ≠ path)) :
    p'.view = ⟨p.view.order.erase path, p.view.hold path none⟩ := by
  have horder : p'.files.map (·.path) = (p.files.map (·.path)).erase path := by
    rw [p.nodup.erase_eq_filter, hfiles, List.filter_map]
    congr 1
    exact List.filter_congr fun f _ => by rw [Function.comp_apply, bne, decide_not]; rfl
  have hcontent : p'.view.content = p.view.hold path none := by
    funext key
    show (p'.find? key).map (·.content) = _
    rw [find?_removed hfiles, OrderedMap.hold]
    by_cases hkey : key = path
    · rw [if_pos hkey, if_pos hkey]
      rfl
    · rw [if_neg hkey, if_neg hkey]
      rfl
  rw [← hcontent, view, horder]
  rfl

/-! ## Steps and runs -/

/-- **One call** does to the view what it does to the map, and answers the same. -/
theorem view_perform (p : Project) (c : Change) :
    p.view.perform c = ((p.perform c).1.view, (p.perform c).2) := by
  cases c with
  | add path content =>
      by_cases hpath : WellFormedPath path
      · by_cases hmem : path ∈ p.files.map (·.path)
        · have hadd : p.add path content = .error (.duplicatePath path) := add_of_taken hpath hmem
          have hview : path ∈ p.view.order := hmem
          simp only [perform, hadd, OrderedMap.perform, hpath, not_true_eq_false, if_false, hview,
            if_true]
        · obtain ⟨p', hadd, hfiles⟩ := add_of_new hpath hmem content
          have hview : path ∉ p.view.order := hmem
          simp only [perform, hadd, OrderedMap.perform, hpath, not_true_eq_false, if_false, hview,
            view_of_added hmem hfiles]
      · have hadd : p.add path content = .error (.invalidPath path) := add_of_malformed hpath
        simp only [perform, hadd, OrderedMap.perform, hpath, not_false_eq_true, if_true]
  | update path content =>
      by_cases hmem : path ∈ p.files.map (·.path)
      · obtain ⟨p', hupdate, hfiles⟩ := update_of_mem hmem content
        have hview : path ∈ p.view.order := hmem
        simp only [perform, hupdate, OrderedMap.perform, hview, if_true,
          view_of_updated hmem hfiles]
      · have hupdate : p.update path content = .error (.notFound path) := update_of_notMem hmem
        have hview : path ∉ p.view.order := hmem
        simp only [perform, hupdate, OrderedMap.perform, hview, if_false]
  | remove path =>
      cases hfile : p.find? path with
      | none =>
          have hremove := remove_of_none hfile
          have hview : p.view.content path = none := by simp [view, hfile]
          simp only [perform, hremove, OrderedMap.perform, hview]
      | some file =>
          obtain ⟨p', hremove, hfiles⟩ := remove_of_some hfile
          obtain ⟨-, rfl⟩ := find?_eq_some_iff.mp hfile
          have hview : p.view.content file.path = some file.content := by simp [view, hfile]
          simp only [perform, hremove, OrderedMap.perform, hview, view_of_removed hfiles]

/-- **A run of calls** does to the view what it does to the map. -/
theorem view_after (p : Project) (cs : List Change) : (p.after cs).view = p.view.after cs := by
  induction cs generalizing p with
  | nil => rfl
  | cons c cs ih =>
      show ((p.perform c).1.after cs).view = (p.view.perform c).1.after cs
      rw [ih, view_perform]

theorem perform_of_refused {c : Change} {e : ProjectError} (h : (p.perform c).2 = .error e) :
    (p.perform c).1 = p := by
  cases c with
  | add path content =>
      cases hadd : p.add path content with
      | ok p' => simp [perform, hadd] at h
      | error e' => simp [perform, hadd]
  | update path content =>
      cases hupdate : p.update path content with
      | ok p' => simp [perform, hupdate] at h
      | error e' => simp [perform, hupdate]
  | remove path =>
      cases hremove : p.remove path with
      | ok r => simp [perform, hremove] at h
      | error e' => simp [perform, hremove]

/-! ## What can be asked -/

/-- A project and a map agree: in the list of files, in the file under each path, in which paths
there are and how many; and the paths are distinct and well formed. -/
structure Shows (p : Project) (m : OrderedMap) : Prop where
  files : p.files = m.files
  find? : ∀ path, p.find? path = (m.content path).map (File.mk path)
  contains : ∀ path, p.contains path = true ↔ path ∈ m.order
  size : p.size = m.order.length
  distinct : m.order.Nodup
  wellFormed : ∀ path ∈ m.order, WellFormedPath path

theorem shows_view (p : Project) : p.Shows p.view where
  files := (files_view p).symm
  find? := find?_eq_view p
  contains := fun _ => contains_iff
  size := by rw [size, view, List.length_map]
  distinct := p.nodup
  wellFormed := by
    intro path hpath
    obtain ⟨file, hfile, rfl⟩ := List.mem_map.mp hpath
    exact isValidPath_iff_wellFormed.mp (p.valid file hfile)

/-! ## Building a project -/

theorem files_of_foldlM_add {files : List (String × String)}
    (h : files.foldlM (fun p f => p.add f.1 f.2) p = .ok p') :
    p'.files = p.files ++ files.map fun f => ⟨f.1, f.2⟩ := by
  induction files generalizing p with
  | nil =>
      obtain rfl : p = p' := Except.ok.inj h
      simp
  | cons f files ih =>
      rw [List.foldlM_cons] at h
      cases hadd : p.add f.1 f.2 with
      | error e => rw [hadd] at h; cases h
      | ok p₁ =>
          rw [hadd] at h
          have hfiles : p₁.files = p.files ++ [⟨f.1, f.2⟩] := by
            unfold add at hadd
            split at hadd
            · split at hadd
              · cases hadd
              · obtain rfl := Except.ok.inj hadd
                rfl
            · cases hadd
          rw [ih h, hfiles, List.map_cons, List.append_assoc]
          rfl

theorem map_path_of_files {files : List (String × String)}
    (h : p.files = files.map fun f => ⟨f.1, f.2⟩) :
    p.files.map (·.path) = files.map (·.1) := by
  rw [h, List.map_map]
  rfl

/-- Well-formed paths that are distinct and not yet taken can all be added. -/
theorem exists_foldlM_add {files : List (String × String)}
    (hpaths : ∀ f ∈ files, WellFormedPath f.1) (hdistinct : (files.map (·.1)).Nodup)
    (hfree : ∀ f ∈ files, f.1 ∉ p.files.map (·.path)) :
    ∃ p', files.foldlM (fun p f => p.add f.1 f.2) p = .ok p' := by
  induction files generalizing p with
  | nil => exact ⟨p, rfl⟩
  | cons f files ih =>
      rw [List.map_cons, List.nodup_cons] at hdistinct
      obtain ⟨p₁, hadd, hfiles⟩ := add_of_new (hpaths f List.mem_cons_self)
        (hfree f List.mem_cons_self) f.2
      rw [List.foldlM_cons, hadd]
      refine ih (fun g hg => hpaths g (List.mem_cons_of_mem _ hg)) hdistinct.2 fun g hg htaken => ?_
      rw [hfiles, List.map_append, List.mem_append] at htaken
      rcases htaken with htaken | htaken
      · exact hfree g (List.mem_cons_of_mem _ hg) htaken
      · rw [List.map_singleton, List.mem_singleton] at htaken
        have hpath : g.1 = f.1 := htaken
        exact hdistinct.1 (hpath ▸ List.mem_map_of_mem (f := (·.1)) hg)

theorem ofFiles_of_good {files : List (String × String)}
    (hpaths : ∀ f ∈ files, WellFormedPath f.1) (hdistinct : (files.map (·.1)).Nodup) :
    ∃ p, ofFiles files = .ok p ∧ p.files = files.map fun f => ⟨f.1, f.2⟩ := by
  obtain ⟨p, hp⟩ := exists_foldlM_add (p := ∅) hpaths hdistinct fun _ _ => List.not_mem_nil
  exact ⟨p, hp, files_of_foldlM_add hp⟩

theorem view_of_ofFiles {files : List (String × String)} (h : ofFiles files = .ok p) :
    p.view = .ofPairs files := by
  have hfiles : p.files = files.map fun f => ⟨f.1, f.2⟩ := files_of_foldlM_add h
  have horder : p.files.map (·.path) = files.map (·.1) := map_path_of_files hfiles
  have hcontent : p.view.content = (OrderedMap.ofPairs files).content := by
    funext key
    show (p.files.find? fun f => decide (f.path = key)).map (·.content) = _
    rw [hfiles, List.find?_map, Option.map_map]
    rfl
  rw [view, horder]
  show OrderedMap.mk _ p.view.content = _
  rw [hcontent]
  rfl

end Project

end SourceEdit
