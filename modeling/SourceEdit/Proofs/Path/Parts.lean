import SourceEdit.Proofs.Path
import SourceEdit.Proofs.Query.Selection

/-!
# The parts of a path

A path is cut from the right: at its last slash into a directory and a name, and the name at its
last dot into a stem and an extension. The cuts can be undone, and the name is the part of the path
that a query tests and its conditions read.
-/

namespace SourceEdit

/-- A name that is a stem, a dot and an extension: the stem is not empty, and the dot is the
last. -/
structure SplitsAtDot (name stem ext : String) : Prop where
  eq : name = stem ++ "." ++ ext
  stem_ne : stem ≠ ""
  noDot : '.' ∉ ext.toList

theorem SplitsAtDot.splitLast_eq {name stem ext : String} (h : SplitsAtDot name stem ext) :
    Text.splitLast '.' name.toList = (some stem.toList, ext.toList) := by
  obtain ⟨rfl, -, hfree⟩ := h
  rw [String.toList_append, String.toList_append, List.append_assoc]
  exact Text.splitLast_append_sep hfree stem.toList

theorem SplitsAtDot.unique {name stem ext stem' ext' : String} (h : SplitsAtDot name stem ext)
    (h' : SplitsAtDot name stem' ext') : stem = stem' ∧ ext = ext' := by
  have hsame := h.splitLast_eq.symm.trans h'.splitLast_eq
  obtain ⟨hstem, hext⟩ := Prod.mk.inj hsame
  exact ⟨String.toList_inj.mp (Option.some.inj hstem), String.toList_inj.mp hext⟩

namespace File

variable {f g : File} {parts : List (List Char)}

/-- **The extension** is what stands behind the last dot of the name, if that has a stem. -/
theorem extension?_eq_some_iff {ext : String} :
    f.extension? = some ext ↔ ∃ stem, SplitsAtDot f.name stem ext := by
  constructor
  · intro h
    unfold extension? at h
    split at h
    · next c stem after hsplit =>
      obtain rfl := Option.some.inj h
      obtain ⟨hname, hfree⟩ := Text.splitLast_eq_some hsplit
      refine ⟨String.ofList (c :: stem), ?_, ?_, ?_⟩
      · apply String.ext
        rw [hname]
        simp
      · intro hempty
        have hchars := congrArg String.toList hempty
        rw [String.toList_ofList] at hchars
        cases hchars
      · rwa [String.toList_ofList]
    · cases h
  · rintro ⟨stem, hstem⟩
    rw [extension?, hstem.splitLast_eq]
    cases hchars : stem.toList with
    | nil => exact absurd (String.toList_eq_nil_iff.mp hchars) hstem.stem_ne
    | cons c cs => exact congrArg some String.ofList_toList

/-! ## Directory and name -/

theorem slash_notMem_name (f : File) : '/' ∉ f.name.toList := by
  have hlast : f.name.toList ∈ Text.fields '/' f.path.toList :=
    List.mem_of_getLast? f.getLast?_fields_path
  exact Text.not_mem_of_mem_fields hlast

/-- A path with a slash is its directory, a slash and its name. -/
theorem path_of_slash (h : '/' ∈ f.path.toList) : f.path = f.directory ++ "/" ++ f.name := by
  match hsplit : Text.splitLast '/' f.path.toList with
  | (none, after) =>
      obtain ⟨hpath, hfree⟩ := Text.splitLast_eq_none hsplit
      rw [hpath] at h
      exact absurd h hfree
  | (some before, after) =>
      apply String.ext
      rw [directory, name, hsplit, (Text.splitLast_eq_some hsplit).1]
      simp

theorem path_of_noSlash (h : '/' ∉ f.path.toList) : f.path = f.name ∧ f.directory = "" := by
  have hsplit := Text.splitLast_of_notMem h
  constructor
  · rw [name, hsplit, String.ofList_toList]
  · rw [directory, hsplit]
    rfl

/-! ## Well-formed paths -/

/-- The last part of a well-formed path is its name. The others, if there are any, make up its
directory. -/
theorem parts_of_wellFormed (h : WellFormedPath f.path) :
    IsPathPart f.name.toList ∧
      ('/' ∉ f.path.toList ∧ f.directory = "" ∨
        '/' ∈ f.path.toList ∧ f.directory ≠ "" ∧ WellFormedPath f.directory) := by
  obtain ⟨parts, hne, hparts, hpath⟩ := h
  obtain ⟨dirs, last, rfl⟩ := (List.eq_nil_or_concat' parts).resolve_left hne
  have hlast := hparts last List.mem_concat_self
  have hdirs : ∀ part ∈ dirs, IsPathPart part := fun part hpart =>
    hparts part (List.mem_append_left _ hpart)
  have hchars : f.path.toList = Text.join '/' (dirs ++ [last]) := by
    rw [hpath, String.toList_ofList]
  have hname : f.name.toList = last := by
    have hfields := f.getLast?_fields_path
    rw [hchars, Text.fields_join hne fun part hpart => (hparts part hpart).noSlash,
      List.getLast?_concat] at hfields
    exact (Option.some.inj hfields).symm
  refine ⟨hname ▸ hlast, ?_⟩
  cases dirs with
  | nil =>
      have hfree : '/' ∉ f.path.toList := by
        rw [hchars]
        exact hlast.noSlash
      exact .inl ⟨hfree, (path_of_noSlash hfree).2⟩
  | cons dir dirs =>
      rw [Text.join_append_singleton (by simp)] at hchars
      have hdirectory : f.directory = String.ofList (Text.join '/' (dir :: dirs)) := by
        rw [directory, hchars, Text.splitLast_append_sep hlast.noSlash]
        rfl
      have hwell : WellFormedPath f.directory := ⟨dir :: dirs, by simp, hdirs, hdirectory⟩
      refine .inr ⟨by rw [hchars]; simp, ?_, hwell⟩
      intro hempty
      rw [hempty] at hwell
      exact absurd hwell (by decide)

/-- Well-formed paths are the same if their directories and their names are. -/
theorem path_inj_of_wellFormed (hf : WellFormedPath f.path) (hg : WellFormedPath g.path)
    (hdirectory : f.directory = g.directory) (hname : f.name = g.name) : f.path = g.path := by
  rcases (parts_of_wellFormed hf).2 with ⟨hfree, hempty⟩ | ⟨hslash, hne, -⟩
  · rcases (parts_of_wellFormed hg).2 with ⟨hfree', -⟩ | ⟨-, hne, -⟩
    · rw [(path_of_noSlash hfree).1, (path_of_noSlash hfree').1, hname]
    · exact absurd (hdirectory.symm.trans hempty) hne
  · rcases (parts_of_wellFormed hg).2 with ⟨-, hempty⟩ | ⟨hslash', -, -⟩
    · exact absurd (hdirectory.trans hempty) hne
    · rw [path_of_slash hslash, path_of_slash hslash', hdirectory, hname]

end File

/-! ## What a query reads -/

/-- What a condition says of a path of which a segment is the last part. -/
def Condition.Reads (path segment : String) : Condition → Prop
  | .name value => segment = value
  | .path value => path = value
  | .extension value => ∃ stem, SplitsAtDot segment stem value

theorem Condition.holds_iff_reads {f : File} {segment : String} {dirs : List (List Char)}
    (hfields : Text.fields '/' f.path.toList = dirs ++ [segment.toList]) (c : Condition) :
    c.holds f = true ↔ c.Reads f.path segment := by
  have hlast := f.getLast?_fields_path
  rw [hfields, List.getLast?_concat, Option.some_inj, String.toList_inj] at hlast
  subst hlast
  cases c with
  | name value => exact beq_iff_eq
  | path value => exact beq_iff_eq
  | extension value => exact beq_iff_eq.trans File.extension?_eq_some_iff

open Glob Query

/-- **The parts of a path recompose.** No name holds a slash, and a path is its directory, a slash
and its name, or only its name if it has no slash. The extension is what stands behind the last dot
of a name with a stem before it, and there is one such way to split a name. The name of a
well-formed path is not empty, its directory is empty or well-formed, and the two tell which path it
is. Conditions on the name and on the extension read the last part of a path, which in a query is
the part that the name test matches. -/
theorem path_parts_recompose :
    (∀ f : File,
      '/' ∉ f.name.toList ∧
      ('/' ∈ f.path.toList → f.path = f.directory ++ "/" ++ f.name) ∧
      ('/' ∉ f.path.toList → f.path = f.name ∧ f.directory = "") ∧
      (∀ ext, f.extension? = some ext ↔ ∃ stem, SplitsAtDot f.name stem ext) ∧
      ∀ stem ext stem' ext', SplitsAtDot f.name stem ext → SplitsAtDot f.name stem' ext' →
        stem = stem' ∧ ext = ext') ∧
    (∀ f : File, WellFormedPath f.path →
      f.name ≠ "" ∧ (f.directory = "" ∨ WellFormedPath f.directory) ∧
      ∀ g : File, WellFormedPath g.path → f.directory = g.directory → f.name = g.name →
        f.path = g.path) ∧
    (∀ (f : File) (dirs : List (List Char)) (segment : String),
      Text.fields '/' f.path.toList = dirs ++ [segment.toList] →
      ∀ c : Condition, c.holds f = true ↔ c.Reads f.path segment) ∧
    ∀ (p : Project) (steps : List (List Char)) (nameTest : List Char)
      (ws : List WrittenCondition), (∀ s ∈ steps, IsStep s) → IsStep nameTest →
      (∀ w ∈ ws, w.WellFormed) →
      ∃ found, QueryEngine.pathExpressions.evaluate p
          (String.ofList (expressionText steps nameTest ws)) = .ok found ∧
        ∀ f, f ∈ found ↔ f ∈ p.files ∧ ∃ a b segment,
          Text.fields '/' f.path.toList = a ++ b ++ [segment.toList] ∧
          StepsMatch steps (a.map utf8) ∧ PartMatches nameTest (utf8 segment.toList) ∧
          ∀ w ∈ ws, w.condition.Reads f.path segment := by
  refine ⟨fun f => ⟨f.slash_notMem_name, File.path_of_slash, File.path_of_noSlash,
    fun _ => File.extension?_eq_some_iff, fun _ _ _ _ => SplitsAtDot.unique⟩, ?_,
    fun _ _ _ => Condition.holds_iff_reads, ?_⟩
  · intro f hf
    obtain ⟨hname, hdirectory⟩ := File.parts_of_wellFormed hf
    refine ⟨fun hempty => hname.nonempty (by rw [hempty]; rfl), ?_,
      fun g hg => File.path_inj_of_wellFormed hf hg⟩
    exact hdirectory.imp (·.2) (·.2.2)
  · intro p steps nameTest ws hsteps hname hws
    obtain ⟨text, hread⟩ := read_expressionText hsteps hname hws
    refine ⟨_, by rw [QueryEngine.evaluate, Query.ofString, hread]; rfl, fun f => ?_⟩
    rw [evaluate, List.mem_filter, selects, Bool.and_eq_true,
      isMatch_iff_pathMatches hsteps hname, List.all_map, List.all_eq_true]
    refine and_congr_right fun _ => ?_
    constructor
    · rintro ⟨⟨a, b, name, hfields, ha, htest⟩, hconditions⟩
      rw [← String.toList_ofList (l := name)] at hfields htest
      refine ⟨a, b, String.ofList name, hfields, ha, htest, fun w hw => ?_⟩
      exact (Condition.holds_iff_reads hfields w.condition).mp (hconditions w hw)
    · rintro ⟨a, b, segment, hfields, ha, htest, hconditions⟩
      refine ⟨⟨a, b, segment.toList, hfields, ha, htest⟩, fun w hw => ?_⟩
      exact (Condition.holds_iff_reads hfields w.condition).mpr (hconditions w hw)

/-- Two archives: the name of one ends in a dot, and a directory of the other has one. -/
def archives : Project where
  files := [⟨"é.d/.x.tar.", "first"⟩, ⟨"é.d/x", "second"⟩]
  nodup := by decide
  valid := by decide

theorem archives_are_told_apart :
    (∃ stem, SplitsAtDot ".x.tar." stem "") ∧ ".x.tar." ≠ "" ∧
      (∀ g : File, WellFormedPath g.path → "é.d" = g.directory → ".x.tar." = g.name →
        "é.d/.x.tar." = g.path) ∧
      ∃ found, QueryEngine.pathExpressions.evaluate archives
          (String.ofList (expressionText [] "*.tar?".toList [{ condition := .extension "" }])) =
            .ok found ∧
        ∀ f, f ∈ found ↔ f ∈ archives.files ∧ ∃ a b segment,
          Text.fields '/' f.path.toList = a ++ b ++ [segment.toList] ∧
          StepsMatch [] (a.map utf8) ∧ PartMatches "*.tar?".toList (utf8 segment.toList) ∧
          ∀ w ∈ [({ condition := .extension "" } : WrittenCondition)],
            w.condition.Reads f.path segment := by
  obtain ⟨hparts, hwell, -, hquery⟩ := path_parts_recompose
  obtain ⟨-, -, -, hext, -⟩ := hparts ⟨"é.d/.x.tar.", "first"⟩
  obtain ⟨hname, -, hinj⟩ := hwell ⟨"é.d/.x.tar.", "first"⟩ (by decide)
  refine ⟨(hext "").mp (by decide), hname, hinj, ?_⟩
  refine hquery archives [] "*.tar?".toList _ (by simp) (by decide) fun w hw => ?_
  rw [List.mem_singleton.mp hw]
  exact ⟨by simp, by simp, by simp, by simp, by simp, by decide⟩

end SourceEdit
