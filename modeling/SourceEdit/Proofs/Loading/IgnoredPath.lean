import SourceEdit.Proofs.Glob.Literal
import SourceEdit.Proofs.Loading.Eligible

/-!
# Ignored paths

A path that is ignored by its names, without wildcards, leaves out whatever has those names on its
path one after another, at any depth, and nothing else. Where loading succeeds, no file with such a
path is in the project.
-/

namespace SourceEdit

open Outcome

namespace Exclusion

variable {raw : String} {fail : GlobError → LoadError} {texts : List String} {globs : List Glob}
  {tree : FileTree} {root : List String} {config : Config} {e : Exclusion} {path : String}

/-! ## The globs for one path -/

/-- What is left of an ignored path without blanks and then slashes at its ends. -/
def ignoredText (raw : String) : List Char :=
  Text.trimWhile (· == '/') (Text.trim raw.toList)

def ignoredNames (raw : String) : List (List Char) :=
  Text.fields '/' (ignoredText raw)

theorem pathGlobs_of_ne_nil (h : ignoredText raw ≠ []) :
    pathGlobs raw = [(false, false), (false, true), (true, false), (true, true)].map
      fun sides => String.ofList (Glob.aroundText sides.1 sides.2 (ignoredText raw)) := by
  have hempty : (ignoredText raw).isEmpty = false := by simpa using h
  unfold pathGlobs
  rw [← ignoredText]
  dsimp only
  rw [if_neg (by rw [hempty]; decide)]
  simp only [List.map_cons, List.map_nil, List.cons.injEq, and_true, ← String.toList_inj]
  simp [Glob.aroundText, Glob.anyParts]

theorem mem_pathGlobs_iff {text : String} : text ∈ pathGlobs raw ↔ ignoredText raw ≠ [] ∧
    ∃ front back, text = String.ofList (Glob.aroundText front back (ignoredText raw)) := by
  by_cases hne : ignoredText raw = []
  · have hnone : pathGlobs raw = [] := by
      unfold pathGlobs
      rw [← ignoredText, hne]
      rfl
    simp [hnone, hne]
  · rw [pathGlobs_of_ne_nil hne, List.mem_map, and_iff_right hne]
    constructor
    · rintro ⟨⟨front, back⟩, -, rfl⟩
      exact ⟨front, back, rfl⟩
    · rintro ⟨front, back, rfl⟩
      refine ⟨(front, back), ?_, rfl⟩
      cases front <;> cases back <;> simp

/-- All globs for a literal path can be read. -/
theorem pathGlobs_are_good (h : Glob.IsLiteral (ignoredText raw)) :
    ∀ text ∈ pathGlobs raw, ∃ g, Glob.ofString false false text = .ok g := by
  intro text htext
  obtain ⟨-, front, back, rfl⟩ := mem_pathGlobs_iff.mp htext
  exact ⟨_, Glob.ofString_aroundText false front back h⟩

/-- One of them matches a path exactly if the names are a run of its parts. -/
theorem matchesSome_pathGlobs_iff (h : Glob.IsLiteral (ignoredText raw))
    (hpath : WellFormedPath path) :
    Glob.MatchesSome (pathGlobs raw) path ↔ ignoredNames raw <:+: Text.fields '/' path.toList := by
  have hmatches : Glob.MatchesSome (pathGlobs raw) path ↔ ignoredText raw ≠ [] ∧
      ∃ front back, Glob.isMatch ⟨String.ofList (Glob.aroundText front back (ignoredText raw)),
        false, Glob.aroundTokens front back (ignoredText raw)⟩ path = true := by
    constructor
    · rintro ⟨text, htext, g, hg, hmatch⟩
      obtain ⟨hne, front, back, rfl⟩ := mem_pathGlobs_iff.mp htext
      rw [Glob.ofString_aroundText false front back h] at hg
      obtain rfl := Except.ok.inj hg
      exact ⟨hne, front, back, hmatch⟩
    · rintro ⟨hne, front, back, hmatch⟩
      exact ⟨_, mem_pathGlobs_iff.mpr ⟨hne, front, back, rfl⟩, _,
        Glob.ofString_aroundText false front back h, hmatch⟩
  rw [hmatches]
  by_cases hne : ignoredText raw = []
  · -- nothing is left of the path, and no part of a path is empty
    refine iff_of_false (fun hboth => hboth.1 hne) fun hrun => ?_
    have hpart : [] ∈ Text.fields '/' path.toList := by
      refine hrun.subset ?_
      rw [ignoredNames, hne]
      exact List.mem_singleton.mpr rfl
    have hvalid := isValidPath_iff_wellFormed.mpr hpath
    exact (isValidPath_iff_parts.mp hvalid [] hpart).1 rfl
  · rw [and_iff_right hne, Glob.exists_around_isMatch_iff hne]
    rfl

/-! ## What applies to a project -/

/-- Whether a text is a line of an ignore file, and not a comment. -/
def IsIgnoreLine (text raw : String) : Prop :=
  raw.toList ∈ Text.fields '\n' text.toList ∧ (Text.trim raw.toList).head? ≠ some '#'

/-- Whether a path is ignored below a root: the configuration names it, or a line of the ignore
file. -/
def Ignores (tree : FileTree) (root : List String) (config : Config) (raw : String) : Prop :=
  raw ∈ config.ignore.paths ∨
    ∃ text, tree.text? (root ++ [fileName]) = some (.ok text) ∧ IsIgnoreLine text raw

theorem good_of_readGlobs (h : readGlobs fail texts = .ok globs) :
    ∀ text ∈ texts, ∃ g, Glob.ofString false false text = .ok g := by
  induction texts generalizing globs with
  | nil => exact fun text htext => absurd htext List.not_mem_nil
  | cons text texts ih =>
      rw [readGlobs, List.mapM_cons] at h
      obtain ⟨g, hg, h⟩ := bind_eq_ok_iff.mp h
      obtain ⟨more, hmore, -⟩ := bind_eq_ok_iff.mp h
      rintro text' (_ | ⟨_, htext⟩)
      · cases hread : Glob.ofString false false text with
        | ok g => exact ⟨g, rfl⟩
        | error e => rw [hread] at hg; cases hg
      · exact ih hmore text' htext

theorem any_isMatch_iff (h : readGlobs fail texts = .ok globs) :
    globs.any (·.isMatch path) = true ↔ Glob.MatchesSome texts path := by
  obtain ⟨globs', hglobs, hmatch⟩ := readGlobs_of_good fail (good_of_readGlobs h)
  obtain rfl := Except.ok.inj (h.symm.trans hglobs)
  exact hmatch path

theorem pathGlobs_trim (raw : String) :
    pathGlobs (String.ofList (Text.trim raw.toList)) = pathGlobs raw := by
  unfold pathGlobs
  rw [String.toList_ofList, Text.trim_trim]

theorem trim_mem_patternLines {text : String} (hline : IsIgnoreLine text raw)
    (hne : ignoredText raw ≠ []) : String.ofList (Text.trim raw.toList) ∈ patternLines text := by
  refine List.mem_map_of_mem (List.mem_filter.mpr ⟨List.mem_map_of_mem hline.1, ?_⟩)
  rw [Bool.and_eq_true, bne_iff_ne]
  refine ⟨?_, hline.2⟩
  have htrim : Text.trim raw.toList ≠ [] := by
    intro h
    exact hne (by rw [ignoredText, h]; rfl)
  simpa using htrim

/-- **The globs for every ignored path apply.** -/
theorem excludes_of_matchesSome (hload : load tree root config = .ok e)
    (hraw : Ignores tree root config raw) {entry : List String}
    (hmatch : Glob.MatchesSome (pathGlobs raw) (pathText entry)) : e.excludes entry = true := by
  obtain ⟨paths, hpaths, hload⟩ := bind_eq_ok_iff.mp hload
  obtain ⟨globs, -, hload⟩ := bind_eq_ok_iff.mp hload
  obtain ⟨patterns, hpatterns, hload⟩ := bind_eq_ok_iff.mp hload
  obtain ⟨lines, hlines, hload⟩ := bind_eq_ok_iff.mp hload
  obtain ⟨own, -, hload⟩ := bind_eq_ok_iff.mp hload
  obtain rfl := pure_eq_ok_iff.mp hload
  have hsome : ∀ raws : List String, raw ∈ raws →
      Glob.MatchesSome (raws.flatMap pathGlobs) (pathText entry) := by
    intro raws hmem
    obtain ⟨text, htext, hg⟩ := hmatch
    exact ⟨text, List.mem_flatMap.mpr ⟨raw, hmem, htext⟩, hg⟩
  rw [excludes, Bool.or_eq_true]
  refine .inr ?_
  simp only [List.any_append, Bool.or_eq_true]
  rcases hraw with hraw | ⟨text, htext, hline⟩
  · exact .inl (.inl (.inl ((any_isMatch_iff hpaths).mpr (hsome _ hraw))))
  · refine .inl (.inr ((any_isMatch_iff hlines).mpr ?_))
    obtain ⟨glob, hglob, hg⟩ := hmatch
    have hne := (mem_pathGlobs_iff.mp hglob).1
    have hfile : filePatterns tree root = .ok (patternLines text) := by
      rw [filePatterns, htext]
    rw [hfile] at hpatterns
    obtain rfl := Except.ok.inj hpatterns
    refine ⟨glob, List.mem_flatMap.mpr ⟨_, trim_mem_patternLines hline hne, ?_⟩, hg⟩
    rwa [pathGlobs_trim]

end Exclusion

namespace Loader

variable {l : Loader} {r : LoadReport} {e : Exclusion} {x : FoundFile} {f : File}

theorem excludes_of_mem_find (h : x ∈ l.find e) :
    ∃ path, pathOf x = pathText path ∧ (path = [] ∨ e.excludes path = false) := by
  unfold find at h
  dsimp only at h
  split at h
  · next root entries _ _ =>
    rw [filesIn_eq, List.mem_map] at h
    obtain ⟨file, hfile, rfl⟩ := h
    refine ⟨file.1, by rw [pathOf_examine, List.nil_append], ?_⟩
    obtain ⟨hne, hpasses⟩ := (Walk.finds_iff _ _ _ _).mp (List.mem_filter.mp hfile).2
    obtain ⟨before, name, hpath⟩ := (List.eq_nil_or_concat' file.1).resolve_left hne
    have hlast := hpasses before name [] hpath
    rw [List.nil_append, ← hpath, Walk.passesBy, Bool.or_eq_false_iff] at hlast
    exact .inr hlast.2
  · next bytes _ _ =>
    split at h
    · rw [List.mem_singleton.mp h]
      exact ⟨[], pathOf_examine _ _ _, .inl rfl⟩
    · exact absurd h List.not_mem_nil
  · exact absurd h List.not_mem_nil

theorem excludes_of_mem_files (hload : l.load = .ok r) (hf : f ∈ r.project.files) :
    ∃ e path, Exclusion.load l.disk.tree l.root l.config = .ok e ∧ f.path = pathText path ∧
      e.excludes path = false := by
  obtain ⟨e, he, hreport⟩ := bind_eq_ok_iff.mp hload
  unfold report at hreport
  split at hreport
  · next project hproject =>
    obtain rfl := Except.ok.inj hreport
    have hfiles := Project.files_of_foldlM_add hproject
    have hnone : (∅ : Project).files = [] := rfl
    rw [hfiles, hnone, List.nil_append] at hf
    obtain ⟨entry, hentry, rfl⟩ := List.mem_map.mp hf
    have hfound := mem_filterMap_textOf?.mp (mem_sortByPath.mp hentry)
    obtain ⟨path, hpath, hpass⟩ := excludes_of_mem_find hfound
    refine ⟨e, path, he, hpath, hpass.resolve_left ?_⟩
    rintro rfl
    have hvalid : isValidPath entry.1 = true :=
      project.valid ⟨entry.1, entry.2⟩ (hfiles ▸ List.mem_append_right _ hf)
    have hname : entry.1 = pathText [] := hpath
    rw [hname] at hvalid
    exact absurd hvalid (by decide)
  · cases hreport

/-- **An ignored path** without characters that mean anything in a glob leaves out what has its
names one after another on the path, at any depth, and nothing else. Its globs can be read, and one
of them matches a path of a project exactly if the names are a run of its parts. Wherever a project
is loaded though the path is ignored, by the configuration or by a line of the ignore file, the
paths of its files have no such run. -/
theorem ignored_path_leaves_out_runs {raw : String}
    (h : Glob.IsLiteral (Exclusion.ignoredText raw)) :
    (∀ fail, ∃ globs, Exclusion.readGlobs fail (Exclusion.pathGlobs raw) = .ok globs ∧
      ∀ path, WellFormedPath path → (globs.any (·.isMatch path) = true ↔
        Exclusion.ignoredNames raw <:+: Text.fields '/' path.toList)) ∧
    ∀ (l : Loader) (r : LoadReport), l.load = .ok r →
      Exclusion.Ignores l.disk.tree l.root l.config raw → ∀ f ∈ r.project.files,
        ¬ Exclusion.ignoredNames raw <:+: Text.fields '/' f.path.toList := by
  refine ⟨fun fail => ?_, fun l r hload hraw f hf hrun => ?_⟩
  · obtain ⟨globs, hglobs, hmatch⟩ :=
      Exclusion.readGlobs_of_good fail (Exclusion.pathGlobs_are_good h)
    refine ⟨globs, hglobs, fun path hpath => ?_⟩
    rw [hmatch, Exclusion.matchesSome_pathGlobs_iff h hpath]
  · obtain ⟨e, path, he, hpath, hpass⟩ := excludes_of_mem_files hload hf
    have hvalid := isValidPath_iff_wellFormed.mp (r.project.valid f hf)
    have hmatch := (Exclusion.matchesSome_pathGlobs_iff h hvalid).mpr hrun
    rw [hpath] at hmatch
    rw [Exclusion.excludes_of_matchesSome he hraw hmatch] at hpass
    cases hpass

def ignoringLoader : Loader :=
  { sampleLoader with
    config := { Config.builtin with ignore := { paths := [" a/ "], globs := [] } } }

theorem exists_load_ignoringLoader : ∃ r, ignoringLoader.load = .ok r := by
  have hgood : ∀ text ∈ Exclusion.globTexts ignoringLoader.config none,
      ∃ g, Glob.ofString false false text = .ok g := by
    have htexts : Exclusion.globTexts ignoringLoader.config none = Exclusion.pathGlobs " a/ " := by
      decide
    rw [htexts]
    exact Exclusion.pathGlobs_are_good (by decide)
  have hfile : ignoringLoader.disk.tree.text? (ignoringLoader.root ++ [Exclusion.fileName]) =
      (none : Option String).map .ok := text?_sampleEntries
  have hroot : ignoringLoader.disk.tree.canonical? ignoringLoader.root = some [] :=
    FileTree.canonical?_nil _
  obtain ⟨e, he, -⟩ := Exclusion.load_of_good hfile hgood
  obtain ⟨r, hreport, -⟩ := report_eq_ok ignoringLoader.rootText
    (wellFormed_of_mem_find hroot rfl isSound_sampleEntries)
    (nodup_find hroot rfl isSound_sampleEntries)
  exact ⟨r, bind_eq_ok_iff.mpr ⟨e, he, hreport _ (List.Perm.refl _)⟩⟩

theorem ignoringLoader_leaves_out_a :
    (∃ r, ignoringLoader.load = .ok r ∧ ∀ content, ⟨"a", content⟩ ∉ r.project.files) ∧
      ∃ globs, Exclusion.readGlobs .badIgnorePath (Exclusion.pathGlobs "/build/out/") = .ok globs ∧
        globs.any (·.isMatch "src/build/out/x") = true ∧
        globs.any (·.isMatch "src/build/outer/x") = false := by
  have hsingle : Glob.IsLiteral (Exclusion.ignoredText " a/ ") := by decide
  have hnested : Glob.IsLiteral (Exclusion.ignoredText "/build/out/") := by decide
  constructor
  · obtain ⟨r, hload⟩ := exists_load_ignoringLoader
    have hruns := (ignored_path_leaves_out_runs hsingle).2 ignoringLoader r hload (.inl (by decide))
    have hrun : Exclusion.ignoredNames " a/ " <:+: Text.fields '/' "a".toList := by decide
    exact ⟨r, hload, fun content hmem => hruns _ hmem hrun⟩
  · obtain ⟨globs, hglobs, hmatch⟩ := (ignored_path_leaves_out_runs hnested).1 .badIgnorePath
    refine ⟨globs, hglobs, (hmatch _ (by decide)).mpr (by decide), ?_⟩
    rw [Bool.eq_false_iff, ne_eq, hmatch _ (by decide)]
    decide

end Loader

end SourceEdit
