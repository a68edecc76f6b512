import SourceEdit.Proofs.Loading.Report
import SourceEdit.Proofs.Outcome

/-!
# Eligible files

Which files a project is loaded with. Globs from three sources and the rule about hidden names
decide on each entry, and with a directory on all that is in it. Every regular file on whose path
nothing is left out is reported once, in the project or as skipped, in whatever order a walk comes
to the files.
-/

namespace SourceEdit

open Outcome

/-- Whether one of some globs matches a path; wildcards match slashes too. -/
def Glob.MatchesSome (texts : List String) (path : String) : Prop :=
  ∃ text ∈ texts, ∃ g, Glob.ofString false false text = .ok g ∧ g.isMatch path = true

theorem Glob.matchesSome_iff {texts : List String} {path : String} :
    MatchesSome texts path ↔ (texts.any fun text =>
      (Glob.ofString false false text).toOption.any (·.isMatch path)) = true := by
  rw [List.any_eq_true]
  refine exists_congr fun text => and_congr_right fun _ => ?_
  cases Glob.ofString false false text with
  | error e => simp [Except.toOption]
  | ok g => simp [Except.toOption]

instance (texts : List String) (path : String) : Decidable (Glob.MatchesSome texts path) :=
  decidable_of_iff _ Glob.matchesSome_iff.symm

namespace Exclusion

variable {texts : List String} {config : Config} {file : Option String}

/-! ## What is left out -/

def globTexts (config : Config) (file : Option String) : List String :=
  config.ignore.paths.flatMap pathGlobs ++ config.ignore.globs ++
    ((file.map patternLines).getD []).flatMap pathGlobs

/-- Whether a name on a path starts with a dot, below another directory than the one that is always
loaded. -/
def IsHidden (path : List String) : Prop :=
  path.head? ≠ some ".atomist" ∧ ∃ name ∈ path, name.toList.head? = some '.'

/-- Whether an entry is left out: a glob matches it, it is the ignore file itself, or it is hidden
and hidden ones are not shown. -/
def LeavesOut (config : Config) (file : Option String) (path : List String) : Prop :=
  Glob.MatchesSome (globTexts config file ++ [".projeditignore"]) (pathText path) ∨
    config.defaults.showHidden = false ∧ IsHidden path

theorem isHidden_iff {path : List String} : isHidden path = true ↔ IsHidden path := by
  rw [isHidden, Bool.and_eq_true, bne_iff_ne, List.any_eq_true]
  refine and_congr_right fun _ => exists_congr fun name => and_congr_right fun _ => ?_
  rw [beq_iff_eq]

instance (path : List String) : Decidable (IsHidden path) :=
  decidable_of_iff _ isHidden_iff

instance (config : Config) (file : Option String) (path : List String) :
    Decidable (LeavesOut config file path) :=
  inferInstanceAs (Decidable (_ ∨ _))

theorem readGlobs_of_good (fail : GlobError → LoadError)
    (h : ∀ text ∈ texts, ∃ g, Glob.ofString false false text = .ok g) :
    ∃ globs, readGlobs fail texts = .ok globs ∧
      ∀ path, globs.any (·.isMatch path) = true ↔ Glob.MatchesSome texts path := by
  induction texts with
  | nil => exact ⟨[], rfl, by simp [Glob.MatchesSome]⟩
  | cons text texts ih =>
      obtain ⟨g, hg⟩ := h text List.mem_cons_self
      obtain ⟨globs, hglobs, hmatch⟩ := ih fun text' htext' => h text' (List.mem_cons_of_mem _ htext')
      refine ⟨g :: globs, ?_, fun path => ?_⟩
      · rw [readGlobs] at hglobs
        rw [readGlobs, List.mapM_cons, hg, hglobs]
        rfl
      · rw [List.any_cons, Bool.or_eq_true, hmatch, Glob.MatchesSome, Glob.MatchesSome]
        simp only [List.mem_cons, exists_eq_or_imp, hg, Except.ok.injEq, exists_eq_left']

theorem matchesSome_append {us : List String} {path : String} :
    Glob.MatchesSome (texts ++ us) path ↔
      Glob.MatchesSome texts path ∨ Glob.MatchesSome us path := by
  simp only [Glob.MatchesSome, List.mem_append, or_and_right, exists_or]

theorem filePatterns_eq {tree : FileTree} {root : List String}
    (h : tree.text? (root ++ [fileName]) = file.map .ok) :
    filePatterns tree root = .ok ((file.map patternLines).getD []) := by
  rw [filePatterns, h]
  cases file with
  | none => rfl
  | some text => rfl

theorem load_of_good {tree : FileTree} {root : List String}
    (hfile : tree.text? (root ++ [fileName]) = file.map .ok)
    (hgood : ∀ text ∈ globTexts config file, ∃ g, Glob.ofString false false text = .ok g) :
    ∃ e, load tree root config = .ok e ∧
      ∀ path, e.excludes path = true ↔ LeavesOut config file path := by
  have hpart : ∀ fail us, (∀ text ∈ us, text ∈ globTexts config file) → ∃ globs,
      readGlobs fail us = .ok globs ∧
        ∀ path, globs.any (·.isMatch path) = true ↔ Glob.MatchesSome us path :=
    fun fail us hus => readGlobs_of_good fail fun text htext => hgood text (hus text htext)
  obtain ⟨paths, hpaths, hmatchPaths⟩ := hpart .badIgnorePath
    (config.ignore.paths.flatMap pathGlobs) fun _ h => by simp [globTexts, h]
  obtain ⟨globs, hglobs, hmatchGlobs⟩ := hpart .badIgnoreGlob config.ignore.globs
    fun _ h => by simp [globTexts, h]
  obtain ⟨lines, hlines, hmatchLines⟩ := hpart .badIgnoreLine
    (((file.map patternLines).getD []).flatMap pathGlobs) fun text h => by
      rw [globTexts]
      exact List.mem_append_right _ h
  have hownGood : ∀ text ∈ [fileName], ∃ g, Glob.ofString false false text = .ok g := by
    intro text htext
    rw [List.mem_singleton.mp htext]
    exact ⟨_, rfl⟩
  obtain ⟨own, hown, hmatchOwn⟩ := readGlobs_of_good .badIgnoreLine hownGood
  refine ⟨⟨paths ++ globs ++ lines ++ own, config.defaults.showHidden⟩, ?_, fun path => ?_⟩
  · refine bind_eq_ok_iff.mpr ⟨paths, hpaths, bind_eq_ok_iff.mpr ⟨globs, hglobs, ?_⟩⟩
    refine bind_eq_ok_iff.mpr ⟨_, filePatterns_eq hfile, ?_⟩
    exact bind_eq_ok_iff.mpr ⟨lines, hlines, bind_eq_ok_iff.mpr ⟨own, hown, rfl⟩⟩
  · rw [excludes, Bool.or_eq_true, Bool.and_eq_true, Bool.not_eq_true', isHidden_iff, LeavesOut,
      or_comm]
    refine or_congr_left ?_
    simp only [List.any_append, Bool.or_eq_true, hmatchPaths, hmatchGlobs, hmatchLines, hmatchOwn,
      globTexts, matchesSome_append]
    rfl

end Exclusion

/-- Whether a file at a path is reported: neither it nor a directory on its path is left out. -/
def IsReported (config : Config) (file : Option String) (path : List String) : Prop :=
  ∀ entry, entry ≠ [] → entry <+: path → ¬ Exclusion.LeavesOut config file entry

/-- Whether the rules of ignore files are about nothing in a directory. -/
def IgnoreLevels.Spare (ls : IgnoreLevels) (tree : FileTree) (directory : List String)
    (entries : List (String × FileTree)) : Prop :=
  ∀ before name node, (FileTree.directory entries).at? (before ++ [name]) = some node →
    (ls.enterAll tree directory before).ignores (directory ++ (before ++ [name]))
      node.isDirectory = false

/-! ## Where no rule applies -/

/-- A level without an ignore file, and outside of repositories. -/
structure IgnoreLevel.IsBare (l : IgnoreLevel) : Prop where
  noRules : l.ignoreFile = {}
  noRepository : l.holdsRepository = false

theorem IgnoreLevel.isBare_ofDirectory {tree : FileTree} {directory : List String}
    {entries : List (String × FileTree)} (hnames : ∀ name ∈ directory, IsName name)
    (hat : tree.at? directory = some (.directory entries))
    (hignore : entries.lookup ".ignore" = none) (hgit : entries.lookup ".git" = none) :
    (ofDirectory tree directory).IsBare := by
  have hfree : ∀ name, IsName name → entries.lookup name = none →
      tree.follow? (directory ++ [name]) = none := by
    intro name hname hlookup
    rw [FileTree.follow?_concat hnames hname hat fun target h => by simp [hlookup] at h, hlookup]
  constructor
  · have hnothing := hfree ".ignore" (by decide) hignore
    simp only [ofDirectory, FileTree.rulesAt, FileTree.bytes?, hnothing]
  · have hnothing := hfree ".git" (by decide) hgit
    simp only [ofDirectory, FileTree.leadsSomewhere, hnothing, Option.isSome_none]

/-- Without ignore files and repositories around it, nothing is ignored. -/
theorem IgnoreLevels.ignores_of_bare {ls : IgnoreLevels} (h : ∀ l ∈ ls.levels, l.IsBare)
    (path : List String) (isDirectory : Bool) : ls.ignores path isDirectory = false := by
  have hrules : ls.levels.findSome?
      (fun l => l.ignoreFile.verdict? (l.relative path) isDirectory) = none := by
    refine List.findSome?_eq_none_iff.mpr fun l hl => ?_
    rw [(h l hl).noRules]
    rfl
  have hrepository : ls.levels.any (·.holdsRepository) = false := by
    refine List.any_eq_false.mpr fun l hl => ?_
    rw [(h l hl).noRepository]
    exact Bool.false_ne_true
  rw [ignores, verdict?, hrules, repositoryVerdict?, hrepository]
  rfl

namespace Loader

variable {l : Loader} {w : Walk} {levels : IgnoreLevels} {root : List String}
  {entries : List (String × FileTree)} {file : Option String} {config : Config}

/-! ## What is found -/

/-- Where no rule applies, a walk finds a file exactly if it is reported. -/
theorem finds_iff_isReported {path : List String} {bytes : ByteArray}
    (hfile : (FileTree.directory entries).at? path = some (.file bytes))
    (hspare : levels.Spare w.tree w.root entries)
    (hexcludes : ∀ path, w.exclusion.excludes path = true ↔
      Exclusion.LeavesOut config file path) :
    w.finds levels [] path = true ↔ IsReported config file path := by
  have hne : path ≠ [] := by
    rintro rfl
    cases hfile
  have hpasses : ∀ before name after, path = before ++ name :: after →
      (w.passesBy (levels.enterAll w.tree (w.root ++ []) before) ([] ++ (before ++ [name]))
        (!after.isEmpty) = false ↔ ¬ Exclusion.LeavesOut config file (before ++ [name])) := by
    rintro before name after rfl
    rw [List.append_cons, FileTree.at?_append, Option.bind_eq_some_iff] at hfile
    obtain ⟨node, hnode, hrest⟩ := hfile
    have hdirectory : node.isDirectory = !after.isEmpty := by
      cases after with
      | nil =>
          obtain rfl := Option.some.inj hrest
          rfl
      | cons name' after => exact FileTree.isDirectory_of_at?_cons hrest
    have hspared := hspare before name node hnode
    rw [hdirectory] at hspared
    rw [List.append_nil, List.nil_append, Walk.passesBy, hspared, Bool.false_or,
      Bool.eq_false_iff, ne_eq, hexcludes]
  rw [Walk.finds_iff, and_iff_right hne]
  constructor
  · rintro h entry hentry ⟨rest, rfl⟩
    obtain ⟨before, name, rfl⟩ := (List.eq_nil_or_concat' entry).resolve_left hentry
    have heq : before ++ [name] ++ rest = before ++ name :: rest := by rw [List.append_assoc]; rfl
    exact (hpasses before name rest heq).mp (h before name rest heq)
  · intro h before name after heq
    refine (hpasses before name after heq).mpr (h _ (by simp) ⟨after, ?_⟩)
    rw [heq, List.append_assoc]
    rfl

section

variable {exclusion : Exclusion} (hroot : l.disk.tree.canonical? l.root = some root)
  (hdirectory : l.disk.tree.at? root = some (.directory entries))

include hroot hdirectory

theorem find_eq :
    l.find exclusion = ((FileTree.regularIn entries).filter fun f =>
      Walk.finds ⟨l.disk.tree, root, exclusion, l.maxFileSize⟩
        (.within l.disk l.personal root) [] f.1).map fun f => examine l.maxFileSize f.1 f.2 := by
  have hfollow : l.disk.tree.follow? l.root = some (.directory entries) := by
    rw [FileTree.follow?, hroot]
    exact hdirectory
  rw [find, hroot, hfollow]
  exact filesIn_eq _ _ [] entries

variable (hsound : (FileTree.directory entries).IsSound)

include hsound

theorem wellFormed_of_mem_find : ∀ x ∈ l.find exclusion, WellFormedPath (pathOf x) := by
  rw [find_eq hroot hdirectory]
  intro x hx
  obtain ⟨f, hf, rfl⟩ := List.mem_map.mp hx
  have hmem := (List.mem_filter.mp hf).1
  rw [pathOf_examine]
  exact wellFormed_pathText (FileTree.ne_nil_of_mem_regularIn hmem)
    (FileTree.isName_of_mem_regularFiles hsound hmem)

theorem nodup_find : ((l.find exclusion).map pathOf).Nodup := by
  rw [find_eq hroot hdirectory]
  generalize (fun f : List String × ByteArray => Walk.finds
    ⟨l.disk.tree, root, exclusion, l.maxFileSize⟩ (.within l.disk l.personal root) [] f.1) = p
  have hpaths : (((FileTree.regularIn entries).filter p).map fun f =>
      examine l.maxFileSize f.1 f.2).map pathOf =
        (((FileTree.regularIn entries).filter p).map (·.1)).map pathText := by
    rw [List.map_map, List.map_map]
    exact List.map_congr_left fun f _ => pathOf_examine _ _ _
  have hdistinct : (((FileTree.regularIn entries).filter p).map (·.1)).Nodup :=
    (FileTree.nodup_regularFiles hsound).sublist (List.filter_sublist.map _)
  rw [hpaths]
  refine hdistinct.map_on fun path hpath path' hpath' heq => ?_
  obtain ⟨f, hf, rfl⟩ := List.mem_map.mp hpath
  obtain ⟨f', hf', rfl⟩ := List.mem_map.mp hpath'
  exact FileTree.pathText_inj_of_mem hsound (List.mem_filter.mp hf).1 (List.mem_filter.mp hf').1 heq

/-- **What is found** is what becomes of the files that are reported. -/
theorem mem_find_iff
    (hspare : (IgnoreLevels.within l.disk l.personal root).Spare l.disk.tree root entries)
    (hexcludes : ∀ path, exclusion.excludes path = true ↔
      Exclusion.LeavesOut l.config file path) (x : FoundFile) :
    x ∈ l.find exclusion ↔ ∃ path bytes,
      (FileTree.directory entries).at? path = some (.file bytes) ∧
      IsReported l.config file path ∧ examine l.maxFileSize path bytes = x := by
  have hfinds : ∀ path bytes, (FileTree.directory entries).at? path = some (.file bytes) →
      (Walk.finds ⟨l.disk.tree, root, exclusion, l.maxFileSize⟩
        (.within l.disk l.personal root) [] path = true ↔ IsReported l.config file path) :=
    fun path bytes hat => finds_iff_isReported
      (w := ⟨l.disk.tree, root, exclusion, l.maxFileSize⟩) hat hspare hexcludes
  rw [find_eq hroot hdirectory, List.mem_map]
  constructor
  · rintro ⟨f, hf, rfl⟩
    obtain ⟨hregular, hreach⟩ := List.mem_filter.mp hf
    have hat := (FileTree.mem_regularFiles_iff hsound).mp hregular
    exact ⟨f.1, f.2, hat, (hfinds f.1 f.2 hat).mp hreach, rfl⟩
  · rintro ⟨path, bytes, hat, hreported, rfl⟩
    refine ⟨(path, bytes), List.mem_filter.mpr ⟨?_, (hfinds path bytes hat).mpr hreported⟩, rfl⟩
    exact (FileTree.mem_regularFiles_iff hsound).mpr hat

end

structure Loads (l : Loader) (entries : List (String × FileTree)) (file : Option String)
    (r : LoadReport) : Prop where
  /-- The project has the files that are reported and are text, with their content. -/
  texts : ∀ text content, ⟨text, content⟩ ∈ r.project.files ↔ ∃ path bytes,
    (FileTree.directory entries).at? path = some (.file bytes) ∧ text = pathText path ∧
    IsReported l.config file path ∧ IsText l.maxFileSize bytes content
  /-- The other files that are reported are skipped, each for its reason. -/
  skipped : ∀ text reason, (text, reason) ∈ r.skipped ↔ ∃ path bytes,
    (FileTree.directory entries).at? path = some (.file bytes) ∧ text = pathText path ∧
    IsReported l.config file path ∧ IsSkippedFor l.maxFileSize bytes reason
  /-- A file is in one of the two exactly if it is reported. -/
  reported : ∀ path bytes, (FileTree.directory entries).at? path = some (.file bytes) →
    ((∃ content, ⟨pathText path, content⟩ ∈ r.project.files) ∨
      (∃ reason, (pathText path, reason) ∈ r.skipped) ↔ IsReported l.config file path)
  /-- The texts of paths tell files apart. -/
  distinct : ∀ path bytes path' bytes',
    (FileTree.directory entries).at? path = some (.file bytes) →
    (FileTree.directory entries).at? path' = some (.file bytes') →
    pathText path = pathText path' → path = path'
  ascendingFiles : r.project.files.Pairwise fun a b => a.path < b.path
  ascendingSkipped : r.skipped.Pairwise fun a b => a.1 < b.1

/-- **Every eligible file is loaded once**, whatever the order of the walk. If all globs can be read
and no rule of an ignore file applies, then a project is loaded from a directory with sound contents.
A regular file below it is reported exactly if no entry on its path, itself included, is left out: by
a glob of the configuration or of the project's own ignore file, or because it is hidden. A file that
is reported is in the project if it is small enough and its bytes are a text without null
characters, and is skipped for its reason else. -/
theorem load_reports_once (hroot : l.disk.tree.canonical? l.root = some root)
    (hdirectory : l.disk.tree.at? root = some (.directory entries))
    (hsound : (FileTree.directory entries).IsSound)
    (hspare : (IgnoreLevels.within l.disk l.personal root).Spare l.disk.tree root entries)
    (hfile : l.disk.tree.text? (l.root ++ [Exclusion.fileName]) = file.map .ok)
    (hgood : ∀ text ∈ Exclusion.globTexts l.config file,
      ∃ g, Glob.ofString false false text = .ok g) :
    ∃ r, l.load = .ok r ∧ Loads l entries file r ∧
      ∃ e, Exclusion.load l.disk.tree l.root l.config = .ok e ∧
        ∀ found, found.Perm (l.find e) → report l.rootText found = .ok r := by
  obtain ⟨e, hload, hexcludes⟩ := Exclusion.load_of_good hfile hgood
  have hmem := mem_find_iff hroot hdirectory hsound hspare hexcludes
  obtain ⟨r, hreport, htexts, hskipped, hfiles, hentries⟩ := report_eq_ok l.rootText
    (wellFormed_of_mem_find hroot hdirectory hsound) (nodup_find hroot hdirectory hsound)
  refine ⟨r, bind_eq_ok_iff.mpr ⟨e, hload, hreport _ (List.Perm.refl _)⟩, ?_, e, hload, hreport⟩
  have htext : ∀ text content, ⟨text, content⟩ ∈ r.project.files ↔ ∃ path bytes,
      (FileTree.directory entries).at? path = some (.file bytes) ∧ text = pathText path ∧
      IsReported l.config file path ∧ IsText l.maxFileSize bytes content := by
    intro text content
    rw [htexts, hmem]
    simp only [examine_eq_text_iff, and_left_comm]
  have hskip : ∀ text reason, (text, reason) ∈ r.skipped ↔ ∃ path bytes,
      (FileTree.directory entries).at? path = some (.file bytes) ∧ text = pathText path ∧
      IsReported l.config file path ∧ IsSkippedFor l.maxFileSize bytes reason := by
    intro text reason
    rw [hskipped, hmem]
    simp only [examine_eq_skipped_iff, and_left_comm]
  have hapart : ∀ path bytes path' bytes',
      (FileTree.directory entries).at? path = some (.file bytes) →
      (FileTree.directory entries).at? path' = some (.file bytes') →
      pathText path = pathText path' → path = path' := fun path bytes path' bytes' hat hat' =>
    FileTree.pathText_inj_of_mem hsound (f := (path, bytes)) (g := (path', bytes'))
      ((FileTree.mem_regularFiles_iff hsound).mpr hat)
      ((FileTree.mem_regularFiles_iff hsound).mpr hat')
  refine ⟨htext, hskip, fun path bytes hat => ⟨?_, fun hreported => ?_⟩, hapart, hfiles,
    hentries⟩
  · rintro (⟨content, hcontent⟩ | ⟨reason, hreason⟩)
    · obtain ⟨path', bytes', hat', htexts, hreported, -⟩ := (htext _ _).mp hcontent
      rwa [hapart path bytes path' bytes' hat hat' htexts]
    · obtain ⟨path', bytes', hat', htexts, hreported, -⟩ := (hskip _ _).mp hreason
      rwa [hapart path bytes path' bytes' hat hat' htexts]
  · rcases examine_cases l.maxFileSize path bytes with ⟨content, -, h⟩ | ⟨reason, -, h⟩
    · exact .inl ⟨content, (htext _ _).mpr ⟨path, bytes, hat, rfl, hreported, h⟩⟩
    · exact .inr ⟨reason, (hskip _ _).mpr ⟨path, bytes, hat, rfl, hreported, h⟩⟩

/-- A file that is loaded, one that is too large, and one in a hidden directory. -/
def sampleEntries : List (String × FileTree) := [
  ("a", .file "x".toUTF8),
  ("big.txt", .file "too large".toUTF8),
  (".hidden", .directory [("b", .file "y".toUTF8)])]

def sampleLoader : Loader where
  disk := ⟨"", .directory sampleEntries⟩
  rootText := "."
  root := []
  config := .builtin
  maxFileSize := 5
  personal := {}

theorem isSound_sampleEntries : (FileTree.directory sampleEntries).IsSound := by
  have ha : IsName "a" := by decide
  have hbig : IsName "big.txt" := by decide
  have hhidden : IsName ".hidden" := by decide
  have hb : IsName "b" := by decide
  exact ⟨by decide, ha, trivial, hbig, trivial, hhidden, ⟨by decide, hb, trivial, trivial⟩, trivial⟩

/-- There is one directory below that of the sample. -/
theorem eq_hidden_of_at? {before : List String} {name : String} {node : FileTree}
    (hat : (FileTree.directory sampleEntries).at? (before ++ [name]) = some node) :
    before = [] ∨ before = [".hidden"] := by
  cases before with
  | nil => exact .inl rfl
  | cons d before =>
      refine .inr ?_
      rw [List.cons_append, FileTree.at?_cons, Option.bind_eq_some_iff] at hat
      obtain ⟨t, hlookup, hat⟩ := hat
      have hdirectory := FileTree.isDirectory_of_at?_concat hat
      have hmem : (d, t) ∈ sampleEntries :=
        (lookup_eq_some_iff isSound_sampleEntries.1).mp hlookup
      simp only [sampleEntries, List.mem_cons, Prod.mk.injEq, List.not_mem_nil, or_false] at hmem
      rcases hmem with ⟨rfl, rfl⟩ | ⟨rfl, rfl⟩ | ⟨rfl, rfl⟩
      · cases hdirectory
      · cases hdirectory
      · cases before with
        | nil => rfl
        | cons d before =>
            rw [List.cons_append, FileTree.at?_cons, Option.bind_eq_some_iff] at hat
            obtain ⟨t, hlookup, hat⟩ := hat
            have hdirectory := FileTree.isDirectory_of_at?_concat hat
            have hmem : (d, t) ∈ [("b", FileTree.file "y".toUTF8)] :=
              (lookup_eq_some_iff (by decide)).mp hlookup
            obtain ⟨rfl, rfl⟩ := Prod.mk.inj (List.mem_singleton.mp hmem)
            cases hdirectory

theorem spare_sampleEntries :
    (IgnoreLevels.within sampleLoader.disk sampleLoader.personal []).Spare
      sampleLoader.disk.tree [] sampleEntries := by
  intro before name node hat
  have hroot : (IgnoreLevel.ofDirectory sampleLoader.disk.tree []).IsBare :=
    IgnoreLevel.isBare_ofDirectory (List.forall_mem_nil _) rfl (by decide) (by decide)
  have hname : IsName ".hidden" := by decide
  have hhidden : (IgnoreLevel.ofDirectory sampleLoader.disk.tree [".hidden"]).IsBare :=
    IgnoreLevel.isBare_ofDirectory (List.forall_mem_singleton.mpr hname) rfl (by decide) (by decide)
  rcases eq_hidden_of_at? hat with rfl | rfl
  · exact IgnoreLevels.ignores_of_bare (List.forall_mem_singleton.mpr hroot) _ _
  · exact IgnoreLevels.ignores_of_bare
      (List.forall_mem_cons.mpr ⟨hhidden, List.forall_mem_singleton.mpr hroot⟩) _ _

theorem text?_sampleEntries :
    sampleLoader.disk.tree.text? (sampleLoader.root ++ [Exclusion.fileName]) =
      (none : Option String).map .ok := by
  have hname : IsName Exclusion.fileName := by decide
  have hlookup : sampleEntries.lookup Exclusion.fileName = none := by decide
  exact FileTree.text?_of_nothing
    ((FileTree.follow?_concat (List.forall_mem_nil _) hname rfl (by simp [hlookup])).trans hlookup)

theorem load_sampleLoader :
    ∃ r, sampleLoader.load = .ok r ∧ ⟨"a", "x"⟩ ∈ r.project.files ∧
      ("big.txt", .largeFile) ∈ r.skipped ∧ ∀ content, ⟨".hidden/b", content⟩ ∉ r.project.files := by
  have hreadable : ∀ text ∈ Exclusion.globTexts sampleLoader.config none,
      (Glob.ofString false false text).toOption.isSome = true := by decide +kernel
  have hgood : ∀ text ∈ Exclusion.globTexts sampleLoader.config none,
      ∃ g, Glob.ofString false false text = .ok g := by
    intro text htext
    obtain ⟨g, hg⟩ := Option.isSome_iff_exists.mp (hreadable text htext)
    exact ⟨g, eq_ok_of_toOption hg⟩
  obtain ⟨r, hload, hr, -⟩ := load_reports_once (l := sampleLoader) (FileTree.canonical?_nil _) rfl
    isSound_sampleEntries spare_sampleEntries text?_sampleEntries hgood
  have hreported : ∀ name, ¬ Exclusion.LeavesOut sampleLoader.config none [name] →
      IsReported sampleLoader.config none [name] := by
    rintro name hname entry hne hprefix
    rcases List.prefix_cons_iff.mp hprefix with rfl | ⟨rest, rfl, hrest⟩
    · exact absurd rfl hne
    · rwa [List.prefix_nil.mp hrest]
  have hlarge : sampleLoader.maxFileSize.toNat < "too large".toUTF8.size := by decide +kernel
  refine ⟨r, hload, ?_, ?_, fun content hmem => ?_⟩
  · exact (hr.texts "a" "x").mpr ⟨["a"], _, rfl, rfl, hreported "a" (by decide +kernel),
      by decide +kernel, rfl, by decide⟩
  · exact (hr.skipped "big.txt" .largeFile).mpr ⟨["big.txt"], _, rfl, rfl,
      hreported "big.txt" (by decide +kernel), hlarge⟩
  · obtain ⟨path, bytes, hat, htext, hreported, -⟩ := (hr.texts _ content).mp hmem
    have hpath : [".hidden", "b"] = path := hr.distinct [".hidden", "b"] _ path bytes rfl hat htext
    exact hreported [".hidden"] (by simp) ⟨["b"], hpath⟩ (.inr ⟨rfl, by decide⟩)

end Loader

end SourceEdit
