import SourceEdit.Config.Layers
import SourceEdit.Proofs.Dict
import SourceEdit.Proofs.FileTree

/-!
# What the layers of a configuration come to

A layer is a text; what it says is looked up in its data. Of the settings and of the patterns under
one name, the one of the highest layer counts that has it, and the lists of what is ignored are
joined. It does not matter in which order the layers are joined, as long as they keep their places.
-/

namespace SourceEdit.Config

variable {text name : String} {texts : List String} {c : Config} {cs : List Config}
  {member : String → Option Data}

/-! ## What a layer says -/

def part? (name text : String) : Option Data :=
  (Toml.read? text).bind fun d =>
    (d.members? .ignored ["defaults", "ignore", "patterns"]).bind fun member => member name

def settingOf? {α : Type} (read? : Data → Option α) (key : String) (d : Data) : Option α :=
  (d.members? .ignored ["max_file_size", "show_hidden"]).bind fun member =>
    (member key).bind read?

def setting? {α : Type} (read? : Data → Option α) (key text : String) : Option α :=
  (part? "defaults" text).bind (settingOf? read? key)

def listOf? (key : String) (d : Data) : Option (List String) :=
  (d.members? .ignored ["paths", "globs"]).bind fun member => (member key).bind Data.texts?

/-- The entries that a layer lists explicitly. -/
def listed (key text : String) : List String :=
  ((part? "ignore" text).bind (listOf? key)).getD []

/-- What is ignored by a layer: its explicit entries, or the built-in ones if it does not say what is
ignored at all. -/
def ignored (builtin : List String) (key text : String) : List String :=
  if (part? "ignore" text).isSome then listed key text else builtin

def pattern? (name text : String) : Option String :=
  ((part? "patterns" text).bind Data.textFields?).bind (latest? (Dict.under name))

/-- A configuration is what a text says. -/
structure Says (text : String) (c : Config) : Prop where
  maxFileSize : c.defaults.maxFileSize? = setting? Data.word? "max_file_size" text
  showHidden : c.defaults.showHidden? = setting? Data.boolean? "show_hidden" text
  paths : c.ignore.paths = ignored IgnoreLists.builtin.paths "paths" text
  globs : c.ignore.globs = ignored IgnoreLists.builtin.globs "globs" text
  patterns : ∀ name, c.patterns.get? name = pattern? name text

theorem of_optional? {α : Type} {read? : Data → Option α} (hnull : read? .null = none)
    {member : Option Data} {a : Option α} (h : Data.optional? read? member = some a) :
    member.bind read? = a := by
  unfold Data.optional? at h
  split at h
  · exact Option.some.inj h
  · rw [Option.bind_some, hnull]
    exact Option.some.inj h
  · obtain ⟨b, hb, rfl⟩ := Option.map_eq_some_iff.mp h
    rw [Option.bind_some, hb]

theorem of_orElse? {α : Type} {missing : α} {read? : Data → Option α} {member : Option Data}
    {a : α} (h : Data.orElse? missing read? member = some a) :
    member = none ∧ a = missing ∨ ∃ d, member = some d ∧ read? d = some a := by
  cases member with
  | none => exact .inl ⟨rfl, (Option.some.inj h).symm⟩
  | some d => exact .inr ⟨d, rfl, h⟩

theorem of_defaultsOf? {member : Option Data} {settings : Defaults}
    (h : Data.orElse? {} (defaultsOf? .ignored) member = some settings) :
    settings.maxFileSize? = member.bind (settingOf? Data.word? "max_file_size") ∧
      settings.showHidden? = member.bind (settingOf? Data.boolean? "show_hidden") := by
  rcases of_orElse? h with ⟨rfl, rfl⟩ | ⟨d, rfl, hd⟩
  · exact ⟨rfl, rfl⟩
  · obtain ⟨member, hmember, hd⟩ := Option.bind_eq_some_iff.mp hd
    obtain ⟨size, hsize, hd⟩ := Option.bind_eq_some_iff.mp hd
    obtain ⟨hidden, hhidden, hd⟩ := Option.bind_eq_some_iff.mp hd
    obtain rfl := Option.some.inj hd
    rw [Option.bind_some, Option.bind_some, settingOf?, settingOf?, hmember, Option.bind_some,
      Option.bind_some, of_optional? rfl hsize, of_optional? rfl hhidden]
    exact ⟨rfl, rfl⟩

theorem of_ignoreOf? {d : Data} {lists : IgnoreLists} (h : ignoreOf? .ignored d = some lists) :
    lists.paths = (listOf? "paths" d).getD [] ∧ lists.globs = (listOf? "globs" d).getD [] := by
  have hlist : ∀ {member : Option Data} {ts : List String},
      Data.orElse? [] Data.texts? member = some ts → ts = (member.bind Data.texts?).getD [] := by
    intro member ts hts
    rcases of_orElse? hts with ⟨rfl, rfl⟩ | ⟨d, rfl, hd⟩
    · rfl
    · rw [Option.bind_some, hd, Option.getD_some]
  obtain ⟨member, hmember, h⟩ := Option.bind_eq_some_iff.mp h
  obtain ⟨paths, hpaths, h⟩ := Option.bind_eq_some_iff.mp h
  obtain ⟨globs, hglobs, h⟩ := Option.bind_eq_some_iff.mp h
  obtain rfl := Option.some.inj h
  rw [listOf?, listOf?, hmember]
  exact ⟨hlist hpaths, hlist hglobs⟩

/-- A text that is read as a configuration is read as what it says. -/
theorem says_of_ofText? (h : ofText? text = some c) : Says text c := by
  obtain ⟨data, hdata, h⟩ := Option.bind_eq_some_iff.mp h
  obtain ⟨member, hmember, h⟩ := Option.bind_eq_some_iff.mp h
  obtain ⟨defaults, hdefaults, h⟩ := Option.bind_eq_some_iff.mp h
  obtain ⟨ignore, hignore, h⟩ := Option.bind_eq_some_iff.mp h
  obtain ⟨patterns, hpatterns, h⟩ := Option.bind_eq_some_iff.mp h
  obtain rfl := Option.some.inj h
  have hpart : ∀ name, part? name text = member name := by
    intro name
    rw [part?, hdata, Option.bind_some, hmember, Option.bind_some]
  have hlists : ignore.paths = ignored IgnoreLists.builtin.paths "paths" text ∧
      ignore.globs = ignored IgnoreLists.builtin.globs "globs" text := by
    rw [ignored, ignored, listed, listed, hpart]
    rcases of_orElse? hignore with ⟨hnone, rfl⟩ | ⟨d, hsome, hd⟩
    · rw [hnone]
      exact ⟨rfl, rfl⟩
    · rw [hsome]
      exact of_ignoreOf? hd
  refine ⟨?_, ?_, hlists.1, hlists.2, fun name => ?_⟩
  · rw [setting?, hpart]
    exact (of_defaultsOf? hdefaults).1
  · rw [setting?, hpart]
    exact (of_defaultsOf? hdefaults).2
  · rw [pattern?, hpart]
    rcases of_orElse? hpatterns with ⟨hnone, rfl⟩ | ⟨d, hsome, hd⟩
    · rw [hnone]
      rfl
    · obtain ⟨fields, hfields, rfl⟩ := Option.map_eq_some_iff.mp hd
      rw [hsome, Option.bind_some, hfields, Option.bind_some]
      exact Dict.get?_ofList fields name

theorem forall₂_of_map (h : texts.map ofText? = cs.map some) : List.Forall₂ Says texts cs := by
  induction texts generalizing cs with
  | nil =>
      obtain rfl := List.map_eq_nil_iff.mp h.symm
      exact .nil
  | cons text texts ih =>
      obtain ⟨c, cs', rfl, hc, hcs⟩ := List.map_eq_cons_iff.mp h.symm
      exact .cons (says_of_ofText? hc.symm) (ih hcs.symm)

/-! ## Layers over the built-in one -/

/-- A configuration is what the built-in one, some layers over it and the environment come to. -/
structure IsLayered (texts : List String) (env : Defaults) (c : Config) : Prop where
  maxFileSize : c.defaults.maxFileSize? =
    (env.maxFileSize?.or (latest? (setting? Data.word? "max_file_size") texts)).or
      (some Defaults.builtinMaxFileSize)
  showHidden : c.defaults.showHidden? =
    (env.showHidden?.or (latest? (setting? Data.boolean? "show_hidden") texts)).or (some false)
  patterns : ∀ name, c.catalog.get? name =
    (latest? (pattern? name) texts).or (Catalog.builtinPatterns.get? name)
  paths : ∀ path, path ∈ c.ignore.paths ↔
    path ∈ IgnoreLists.builtin.paths ∨ ∃ text ∈ texts, path ∈ listed "paths" text
  globs : ∀ glob, glob ∈ c.ignore.globs ↔
    glob ∈ IgnoreLists.builtin.globs ∨ ∃ text ∈ texts, glob ∈ listed "globs" text
  /-- Where there is a layer, the lists are in ascending order. -/
  ascending : texts ≠ [] →
    c.ignore.paths.Pairwise (· < ·) ∧ c.ignore.globs.Pairwise (· < ·)

theorem get?_catalog (c : Config) (name : String) :
    c.catalog.get? name = (c.patterns.get? name).or (Catalog.builtinPatterns.get? name) :=
  Dict.get?_overlay Catalog.builtinPatterns c.patterns name

theorem isLayered_builtin : IsLayered [] {} builtin where
  maxFileSize := rfl
  showHidden := rfl
  patterns name := by
    rw [get?_catalog, latest?_nil, Option.none_or]
    exact Option.or_self
  paths := by simp [builtin]
  globs := by simp [builtin]
  ascending := fun h => absurd rfl h

/-- A layer adds the entries that it lists explicitly, also if it does not have the lists. -/
theorem mem_or_mem_ignored {builtin : List String} {entry key : String} :
    entry ∈ builtin ∨ entry ∈ ignored builtin key text ↔
      entry ∈ builtin ∨ entry ∈ listed key text := by
  rw [ignored]
  split
  · rfl
  · -- such a layer has the built-in entries, which the lowest layer has already
    next hnone =>
    rw [Option.not_isSome_iff_eq_none] at hnone
    have hempty : listed key text = [] := by rw [listed, hnone]; rfl
    rw [hempty]
    simp

theorem mem_union {builtin lower upper : List String} {entry key : String}
    (hlower : ∀ entry, entry ∈ lower ↔
      entry ∈ builtin ∨ ∃ text ∈ texts, entry ∈ listed key text)
    (hupper : upper = ignored builtin key text) :
    entry ∈ sortedTexts (lower ++ upper) ↔
      entry ∈ builtin ∨ ∃ text' ∈ texts ++ [text], entry ∈ listed key text' := by
  have hlast : (∃ text' ∈ texts ++ [text], entry ∈ listed key text') ↔
      (∃ text' ∈ texts, entry ∈ listed key text') ∨ entry ∈ listed key text := by
    simp only [List.mem_append, List.mem_singleton, or_and_right, exists_or, exists_eq_left]
  rw [Dict.mem_sortedTexts, List.mem_append, hlower, hupper, hlast, or_right_comm,
    mem_or_mem_ignored, or_right_comm, or_assoc]

/-- A setting of one more layer counts before those of the layers below it. -/
theorem orElse_setting {α : Type} {setting? : String → Option α} {lower upper missing : Option α}
    (hlower : lower = (none.or (latest? setting? texts)).or missing)
    (hupper : upper = setting? text) :
    (upper <|> lower) = (none.or (latest? setting? (texts ++ [text]))).or missing := by
  rw [Option.orElse_eq_orElse, Option.orElse_eq_or, hlower, hupper, latest?_concat, Option.none_or,
    Option.none_or, Option.or_assoc]

/-- **One more layer.** -/
theorem IsLayered.overlay {lower upper : Config} (h : IsLayered texts {} lower)
    (hupper : Says text upper) : IsLayered (texts ++ [text]) {} (lower.overlay upper) where
  maxFileSize := orElse_setting h.maxFileSize hupper.maxFileSize
  showHidden := orElse_setting h.showHidden hupper.showHidden
  patterns := fun name => by
    have hlower := h.patterns name
    rw [get?_catalog] at hlower ⊢
    have hget : (lower.overlay upper).patterns.get? name =
        (upper.patterns.get? name).or (lower.patterns.get? name) :=
      Dict.get?_overlay lower.patterns upper.patterns name
    rw [hget, Option.or_assoc, hlower, hupper.patterns, latest?_concat, Option.or_assoc]
  paths := fun _ => mem_union h.paths hupper.paths
  globs := fun _ => mem_union h.globs hupper.globs
  ascending := fun _ => ⟨Dict.sortedTexts_pairwise _, Dict.sortedTexts_pairwise _⟩

/-- **Any number of layers**, one over the other. -/
theorem IsLayered.foldl_overlay {texts' : List String} (h : IsLayered texts {} c)
    (hsaid : List.Forall₂ Says texts' cs) :
    IsLayered (texts ++ texts') {} (cs.foldl Config.overlay c) := by
  induction hsaid generalizing texts c with
  | nil =>
      rw [List.append_nil]
      exact h
  | cons hfirst _ ih =>
      rw [List.append_cons]
      exact ih (h.overlay hfirst)

theorem isLayered_foldl (h : List.Forall₂ Says texts cs) :
    IsLayered texts {} (cs.foldl Config.overlay builtin) :=
  isLayered_builtin.foldl_overlay h

theorem orElse_environment {α : Type} {files env latest missing : Option α}
    (hfiles : files = (none.or latest).or missing) :
    (env <|> files) = (env.or latest).or missing := by
  rw [Option.orElse_eq_orElse, Option.orElse_eq_or, hfiles, Option.none_or, Option.or_assoc]

/-- The environment has the last word on the settings. -/
theorem IsLayered.environment (h : IsLayered texts {} c) (env : Defaults) :
    IsLayered texts env { c with defaults := c.defaults.overlay env } where
  maxFileSize := orElse_environment h.maxFileSize
  showHidden := orElse_environment h.showHidden
  patterns := h.patterns
  paths := h.paths
  globs := h.globs
  ascending := h.ascending

/-! ## Grouping -/

theorem union_assoc (a b c : IgnoreLists) : (a.union b).union c = a.union (b.union c) := by
  have hsorted : ∀ xs ys zs : List String,
      sortedTexts (sortedTexts (xs ++ ys) ++ zs) = sortedTexts (xs ++ sortedTexts (ys ++ zs)) := by
    intro xs ys zs
    refine Dict.sortedTexts_congr fun t => ?_
    simp only [List.mem_append, Dict.mem_sortedTexts, or_assoc]
  simp only [IgnoreLists.union, hsorted]

theorem overlay_assoc (a b c : Config) : (a.overlay b).overlay c = a.overlay (b.overlay c) := by
  have hdefaults : (a.defaults.overlay b.defaults).overlay c.defaults =
      a.defaults.overlay (b.defaults.overlay c.defaults) := by
    simp only [Defaults.overlay, Option.orElse_eq_orElse, Option.orElse_eq_or, Option.or_assoc]
  have hpatterns : (a.patterns.overlay b.patterns).overlay c.patterns =
      a.patterns.overlay (b.patterns.overlay c.patterns) := by
    refine Dict.ext_get? fun k => ?_
    simp only [Dict.get?_overlay, Option.or_assoc]
  simp only [Config.overlay, hdefaults, union_assoc, hpatterns]

/-- Layers in groups, where each group is joined before it is joined with others. -/
inductive Grouping where
  | layer (c : Config)
  | join (lower upper : Grouping)

namespace Grouping

def layers : Grouping → List Config
  | .layer c => [c]
  | .join lower upper => lower.layers ++ upper.layers

def merged : Grouping → Config
  | .layer c => c
  | .join lower upper => lower.merged.overlay upper.merged

theorem foldl_layers (g : Grouping) (c : Config) :
    g.layers.foldl Config.overlay c = c.overlay g.merged := by
  induction g generalizing c with
  | layer c' => rfl
  | join lower upper ihlower ihupper =>
      show (lower.layers ++ upper.layers).foldl Config.overlay c = _
      rw [List.foldl_append, ihlower, ihupper, overlay_assoc]
      rfl

/-- **However layers are grouped**, they come to what they do one over the other. -/
theorem merged_eq_foldl (g : Grouping) :
    ∃ c cs, g.layers = c :: cs ∧ g.merged = cs.foldl Config.overlay c := by
  induction g with
  | layer c => exact ⟨c, [], rfl, rfl⟩
  | join lower upper ihlower _ =>
      obtain ⟨c, cs, hlayers, hmerged⟩ := ihlower
      refine ⟨c, cs ++ upper.layers, ?_, ?_⟩
      · rw [layers, hlayers, List.cons_append]
      · rw [List.foldl_append, ← hmerged, foldl_layers]
        rfl

end Grouping

/-! ## On a disk -/

theorem layer_eq_ok {disk : Disk} {path : List String} {file : Option String}
    (hfile : disk.tree.text? path = file.map .ok)
    (hread : ∀ text ∈ file, (ofText? text).isSome = true) :
    ∃ cs, layer disk path = .ok cs ∧ List.Forall₂ Says file.toList cs := by
  cases file with
  | none =>
      refine ⟨[], ?_, .nil⟩
      rw [layer, hfile]
      rfl
  | some text =>
      obtain ⟨c, hc⟩ := Option.isSome_iff_exists.mp (hread text rfl)
      refine ⟨[c], ?_, .cons (says_of_ofText? hc) .nil⟩
      simp only [layer, hfile, Option.map_some, hc]

/-- **The layers of a configuration.** If the file of the user and that of the workspace are read as
configurations, where they exist, then a configuration is loaded. Each setting is the one of the
highest source that has it: the environment, if its text can be read, the workspace, the user, and
the built-in configuration at last; and so is each pattern. What is ignored are the built-in entries
and those that a layer lists explicitly, and nothing else, in ascending order if there is a file. The
same holds of any number of layers over the built-in one, in whichever groups they are joined. -/
theorem load_joins_layers {disk : Disk} {surroundings : Surroundings} {start : List String}
    {user workspace : Option String}
    (huser : disk.tree.text? (userFile surroundings) = user.map .ok)
    (hworkspace : disk.tree.text? (workspaceFile disk.tree start) = workspace.map .ok)
    (hread : ∀ text ∈ user.toList ++ workspace.toList, (ofText? text).isSome = true) :
    (∃ c, load disk surroundings start = .ok c ∧
      IsLayered (user.toList ++ workspace.toList)
        { maxFileSize? := surroundings.maxFileSize?.bind sizeOfText?
          showHidden? := surroundings.showHidden?.bind flagOfText? } c) ∧
    ∀ (texts : List String) (cs : List Config), texts.map ofText? = cs.map some →
      IsLayered texts {} (cs.foldl Config.overlay builtin) ∧
      ∀ g : Grouping, g.layers = builtin :: cs → g.merged = cs.foldl Config.overlay builtin := by
  constructor
  · obtain ⟨cs, hcs, hsaid⟩ := layer_eq_ok huser fun text ht =>
      hread text (List.mem_append_left _ (Option.mem_toList.mpr ht))
    obtain ⟨ds, hds, hsaid'⟩ := layer_eq_ok hworkspace fun text ht =>
      hread text (List.mem_append_right _ (Option.mem_toList.mpr ht))
    refine ⟨_, ?_, (isLayered_foldl (List.rel_append hsaid hsaid')).environment _⟩
    rw [load, hcs]
    show layer disk _ >>= _ = _
    rw [hds]
    rfl
  · intro texts cs htexts
    refine ⟨isLayered_foldl (forall₂_of_map htexts), fun g hlayers => ?_⟩
    obtain ⟨c, cs', hg, hmerged⟩ := g.merged_eq_foldl
    obtain ⟨rfl, rfl⟩ := List.cons.inj (hg.symm.trans hlayers)
    exact hmerged

def userText : String := "[defaults]\nmax_file_size = 5"

/-- The file of a workspace, which goes back to the built-in size. -/
def workspaceText : String := "defaults.max_file_size = 1048576\nignore.globs = ['*.tmp']"

def layeredDisk : Disk where
  base := ""
  tree := .directory [
    ("projedit", .directory [("config.toml", .file userText.toUTF8)]),
    (".projedit", .directory [("config.toml", .file workspaceText.toUTF8)])]

def layeredSurroundings : Surroundings where
  home := []
  configHome? := some []
  showHidden? := some " true"

theorem load_layeredDisk :
    ∃ c, load layeredDisk layeredSurroundings [] = .ok c ∧
      c.defaults.maxFileSize? = some 1048576 ∧ c.defaults.showHidden? = some true ∧
      ∀ glob, glob ∈ c.ignore.globs ↔ glob = "*.lock" ∨ glob = "*.tmp" := by
  have hname : IsName "config.toml" := by decide
  have huser : layeredDisk.tree.text? (userFile layeredSurroundings) =
      (some userText).map .ok := by
    have hdirectory : IsName "projedit" := by decide
    have hat : layeredDisk.tree.at? ["projedit"] =
        some (.directory [("config.toml", .file userText.toUTF8)]) := rfl
    exact FileTree.text?_of_file
      (FileTree.follow?_concat (List.forall_mem_singleton.mpr hdirectory) hname hat (by simp))
  have hworkspace : layeredDisk.tree.text? (workspaceFile layeredDisk.tree []) =
      (some workspaceText).map .ok := by
    have hroot : workspaceRoot layeredDisk.tree [] = [] := by
      cases hfind : (ancestors []).find? fun p => layeredDisk.tree.leadsSomewhere (p ++ [".git"]) with
      | none => rw [workspaceRoot, hfind, Option.getD_none]
      | some p =>
          rw [workspaceRoot, hfind, Option.getD_some]
          exact List.mem_singleton.mp (List.mem_of_find?_eq_some hfind)
    have hdirectory : IsName ".projedit" := by decide
    have hat : layeredDisk.tree.at? [".projedit"] =
        some (.directory [("config.toml", .file workspaceText.toUTF8)]) := rfl
    rw [workspaceFile, hroot]
    exact FileTree.text?_of_file
      (FileTree.follow?_concat (List.forall_mem_singleton.mpr hdirectory) hname hat (by simp))
  obtain ⟨⟨c, hload, hc⟩, -⟩ := load_joins_layers huser hworkspace (by decide +kernel)
  have hlisted : listed "globs" userText = [] ∧ listed "globs" workspaceText = ["*.tmp"] := by
    decide +kernel
  refine ⟨c, hload, ?_, ?_, fun glob => ?_⟩
  · rw [hc.maxFileSize]
    decide +kernel
  · rw [hc.showHidden]
    decide +kernel
  · rw [hc.globs]
    simp [IgnoreLists.builtin, hlisted.1, hlisted.2]

end SourceEdit.Config
