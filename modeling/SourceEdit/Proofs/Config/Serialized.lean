import SourceEdit.Config.Layers
import SourceEdit.Proofs.Data.Reordered
import SourceEdit.Proofs.Dict
import SourceEdit.Proofs.Json.Written
import SourceEdit.Proofs.Toml.Range
import SourceEdit.Proofs.Toml.Written

/-!
# Configurations survive serialization

The data of a configuration leave out the settings that are open, and have its lists even where they
are empty. Reading gives back the configuration, in whatever order the fields are found: a setting
that is not there is open, and a list that is empty stays so, while only lists that are missing
altogether are the built-in ones.
-/

namespace SourceEdit.Config

open Data (Reordered Rigid)

variable {surplus : Data.Surplus} {d : Data}

/-! ## Members -/

theorem word?_toNat (n : UInt64) : Data.word? (.integer n.toNat) = some n := by
  have hlow : (0 : Int) ≤ n.toNat := Int.natCast_nonneg _
  have hhigh : (n.toNat : Int) < UInt64.size := by exact_mod_cast n.toNat_lt
  rw [Data.word?, if_pos ⟨hlow, hhigh⟩, Int.toNat_natCast, UInt64.ofNat_toNat]

theorem optional?_map {α : Type} {read? : Data → Option α} {write : α → Data}
    (hread : ∀ a, read? (write a) = some a) (hnull : ∀ a, write a ≠ .null) (setting : Option α) :
    Data.optional? read? (setting.map write) = some setting := by
  cases setting with
  | none => rfl
  | some a =>
      rw [Option.map_some, Data.optional?, hread]
      · rfl
      · exact hnull a

theorem texts?_list (texts : List String) :
    Data.texts? (.list (texts.map .text)) = some texts := by
  apply Outcome.mapM_map_eq_some
  intro text
  rfl

theorem textFields?_record (entries : List (String × String)) :
    Data.textFields? (.record (entries.map fun e => (e.1, .text e.2))) = some entries := by
  apply Outcome.mapM_map_eq_some
  intro e
  rfl

theorem rigid_texts (texts : List String) : Rigid (.list (texts.map .text)) := by
  refine Data.rigid_list fun d hd => ?_
  obtain ⟨text, -, rfl⟩ := List.mem_map.mp hd
  exact Data.rigid_text text

/-! ## Parts -/

def settings (s : Defaults) : List (String × Data) :=
  (s.maxFileSize?.map fun n => ("max_file_size", Data.integer n.toNat)).toList ++
    (s.showHidden?.map fun b => ("show_hidden", Data.boolean b)).toList

theorem lookup_settings (s : Defaults) : ((settings s).map (·.1)).Nodup ∧
    (settings s).lookup "max_file_size" = s.maxFileSize?.map (fun n => .integer n.toNat) ∧
    (settings s).lookup "show_hidden" = s.showHidden?.map .boolean := by
  obtain ⟨size?, hidden?⟩ := s
  cases size? <;> cases hidden? <;> simp [settings, List.lookup_cons]

theorem mem_settings {s : Defaults} {f : String × Data} (hf : f ∈ settings s) :
    (∃ n, s.maxFileSize? = some n ∧ f.2 = .integer n.toNat) ∨ ∃ b, f.2 = .boolean b := by
  rcases List.mem_append.mp hf with hf | hf
  · rw [Option.mem_toList, Option.map_eq_some_iff] at hf
    obtain ⟨n, hn, rfl⟩ := hf
    exact .inl ⟨n, hn, rfl⟩
  · rw [Option.mem_toList, Option.map_eq_some_iff] at hf
    obtain ⟨b, -, rfl⟩ := hf
    exact .inr ⟨b, rfl⟩

theorem lookup_of_reordered {s : Defaults} (h : (defaultsToData s).Reordered d) :
    ∃ found, d = .record found ∧ (found.map (·.1)).Nodup ∧
      found.lookup "max_file_size" = s.maxFileSize?.map (fun n => .integer n.toNat) ∧
      found.lookup "show_hidden" = s.showHidden?.map .boolean := by
  obtain ⟨hnames, hsize, hhidden⟩ := lookup_settings s
  have hsettings : (Data.record (settings s)).Reordered d := h
  obtain ⟨found, rfl, hdistinct, hfound⟩ := hsettings.lookup hnames
  have hsize' := hfound "max_file_size"
  have hhidden' := hfound "show_hidden"
  rw [hsize] at hsize'
  rw [hhidden] at hhidden'
  exact ⟨found, rfl, hdistinct, Data.eq_of_rel hsize' fun n => Data.rigid_integer _,
    Data.eq_of_rel hhidden' Data.rigid_boolean⟩

/-- **Settings** are read back. -/
theorem defaultsOf?_of_reordered {s : Defaults} (h : (defaultsToData s).Reordered d) :
    defaultsOf? surplus d = some s := by
  obtain ⟨found, rfl, hdistinct, hsize, hhidden⟩ := lookup_of_reordered h
  have hboolean : ∀ b, Data.boolean? (.boolean b) = some b := fun _ => rfl
  have hread := optional?_map word?_toNat (fun _ h => nomatch h) s.maxFileSize?
  have hread' := optional?_map hboolean (fun _ h => nomatch h) s.showHidden?
  simp only [defaultsOf?, Data.members?_of_nodup hdistinct, hsize, hhidden, Option.bind_eq_bind,
    Option.bind_some, hread, hread']
  rfl

/-- **Lists** are read back, also if they are empty. -/
theorem ignoreOf?_of_reordered {lists : IgnoreLists} (h : (ignoreToData lists).Reordered d) :
    ignoreOf? surplus d = some lists := by
  have hnames : ["paths", "globs"].Nodup := by decide
  obtain ⟨found, rfl, hdistinct, hfound⟩ := h.lookup hnames
  obtain ⟨paths, hpaths, hp⟩ := Data.exists_of_rel (hfound "paths")
  obtain ⟨globs, hglobs, hg⟩ := Data.exists_of_rel (hfound "globs")
  rw [rigid_texts _ _ hp] at hpaths
  rw [rigid_texts _ _ hg] at hglobs
  simp only [ignoreOf?, Data.members?_of_nodup hdistinct, hpaths, hglobs, Data.orElse?,
    texts?_list, Option.bind_eq_bind, Option.bind_some]
  rfl

/-- **Patterns** are read back. -/
theorem patterns_of_reordered {patterns : Dict String}
    (h : (Data.record (patterns.entries.map fun e => (e.1, .text e.2))).Reordered d) :
    d.textFields?.map Dict.ofList = some patterns := by
  obtain ⟨entries, hperm, rfl⟩ := h.exists_texts
  rw [textFields?_record, Option.map_some, Dict.ofList_eq_of_perm hperm]

theorem parts_of_reordered {c : Config} (h : c.toData.Reordered d) : ∃ found defaults ignore
    patterns, d = .record found ∧ (found.map (·.1)).Nodup ∧
      (found.lookup "defaults" = some defaults ∧ (defaultsToData c.defaults).Reordered defaults) ∧
      (found.lookup "ignore" = some ignore ∧ (ignoreToData c.ignore).Reordered ignore) ∧
      found.lookup "patterns" = some patterns ∧
        (Data.record (c.patterns.entries.map fun e => (e.1, .text e.2))).Reordered patterns := by
  have hnames : ["defaults", "ignore", "patterns"].Nodup := by decide
  obtain ⟨found, rfl, hdistinct, hfound⟩ := h.lookup hnames
  obtain ⟨defaults, hdefaults⟩ := Data.exists_of_rel (hfound "defaults")
  obtain ⟨ignore, hignore⟩ := Data.exists_of_rel (hfound "ignore")
  obtain ⟨patterns, hpatterns⟩ := Data.exists_of_rel (hfound "patterns")
  exact ⟨found, defaults, ignore, patterns, rfl, hdistinct, hdefaults, hignore, hpatterns⟩

/-- **A configuration** is read back from its data. -/
theorem ofData?_of_reordered {c : Config} (h : c.toData.Reordered d) :
    ofData? surplus d = some c := by
  obtain ⟨found, defaults, ignore, patterns, rfl, hdistinct, ⟨hdefaults, hd⟩, ⟨hignore, hi⟩,
    hpatterns, hp⟩ := parts_of_reordered h
  simp only [ofData?, Data.members?_of_nodup hdistinct, hdefaults, hignore, hpatterns,
    Data.orElse?, defaultsOf?_of_reordered hd, ignoreOf?_of_reordered hi, patterns_of_reordered hp,
    Option.bind_eq_bind, Option.bind_some]
  rfl

/-! ## Texts -/

def fields (c : Config) : List (String × Data) :=
  [("defaults", defaultsToData c.defaults), ("ignore", ignoreToData c.ignore),
    ("patterns", .record (c.patterns.entries.map fun e => (e.1, .text e.2)))]

def toJson (c : Config) : String := String.ofList (Json.format.write c.toData)

def toToml (c : Config) : String := String.ofList (Toml.document c.fields)

/-- Whether a TOML document has the data of a configuration, in whatever order. -/
def WrittenIn (c : Config) (text : String) : Prop :=
  ∃ d, Toml.read? text = some d ∧ c.toData.Reordered d

theorem fits_toData (c : Config) : Json.Fits Json.depthLimit c.toData := by
  have htexts : ∀ texts : List String, Json.Fits 126 (.list (texts.map .text)) := by
    intro texts d hd
    obtain ⟨text, -, rfl⟩ := List.mem_map.mp hd
    trivial
  have hdefaults : Json.Fits 127 (defaultsToData c.defaults) := by
    intro f hf
    rcases mem_settings hf with ⟨n, -, hn⟩ | ⟨b, hb⟩
    · rw [hn]
      trivial
    · rw [hb]
      trivial
  have hignore : Json.Fits 127 (ignoreToData c.ignore) :=
    List.forall_mem_cons.mpr ⟨htexts _, List.forall_mem_singleton.mpr (htexts _)⟩
  have hpatterns : Json.Fits 127 (.record (c.patterns.entries.map fun e => (e.1, .text e.2))) := by
    intro f hf
    obtain ⟨e, -, rfl⟩ := List.mem_map.mp hf
    trivial
  exact List.forall_mem_cons.mpr
    ⟨hdefaults, List.forall_mem_cons.mpr ⟨hignore, List.forall_mem_singleton.mpr hpatterns⟩⟩

theorem read?_toJson (c : Config) : Json.read? c.toJson = some c.toData :=
  Json.read?_write c.fits_toData

theorem ofText?_of_writtenIn {c : Config} {text : String} (h : c.WrittenIn text) :
    ofText? text = some c := by
  obtain ⟨d, hd, hreordered⟩ := h
  rw [ofText?, hd]
  exact ofData?_of_reordered hreordered

theorem inRange?_toNat_iff {n : UInt64} :
    Toml.inRange? n.toNat = some (.integer n.toNat) ↔ n.toNat < 1 <<< 63 := by
  have hlow : -((1 <<< 63 : Nat) : Int) ≤ n.toNat := by omega
  rw [Toml.inRange?, Option.ite_none_right_eq_some, and_iff_left rfl, and_iff_right hlow,
    Int.ofNat_lt]

/-- The largest size of a file fits 63 bits where a document holds it, as all its integers do. -/
theorem toNat_lt_of_writtenIn {c : Config} {text : String} (h : c.WrittenIn text) {n : UInt64}
    (hn : c.defaults.maxFileSize? = some n) : n.toNat < 1 <<< 63 := by
  obtain ⟨d, hd, hreordered⟩ := h
  obtain ⟨found, defaults, -, -, rfl, -, ⟨hdefaults, hsettings⟩, -, -⟩ :=
    parts_of_reordered hreordered
  obtain ⟨settings, rfl, -, hsize, -⟩ := lookup_of_reordered hsettings
  rw [hn] at hsize
  have hrange := ((Toml.inRange_of_read? hd).lookup hdefaults).lookup hsize
  cases hrange with
  | integer hrange => exact inRange?_toNat_iff.mp hrange

theorem fits_fields {c : Config} (h : ∀ n ∈ c.defaults.maxFileSize?, n.toNat < 1 <<< 63) :
    ∀ f ∈ c.fields, Toml.Fits Toml.depthLimit f.2 := by
  have htexts : ∀ texts : List String, Toml.Fits 79 (.list (texts.map .text)) := by
    intro texts
    refine ⟨by decide, fun d hd => ?_⟩
    obtain ⟨text, -, rfl⟩ := List.mem_map.mp hd
    trivial
  have hdefaults : Toml.Fits 80 (defaultsToData c.defaults) := by
    refine ⟨by decide, (lookup_settings c.defaults).1, fun f hf => ?_⟩
    rcases mem_settings hf with ⟨n, hn, hf⟩ | ⟨b, hf⟩
    · rw [hf]
      exact inRange?_toNat_iff.mpr (h n hn)
    · rw [hf]
      trivial
  have hnames : ["paths", "globs"].Nodup := by decide
  have hignore : Toml.Fits 80 (ignoreToData c.ignore) :=
    ⟨by decide, hnames, List.forall_mem_cons.mpr
      ⟨htexts _, List.forall_mem_singleton.mpr (htexts _)⟩⟩
  have hpatterns : Toml.Fits 80 (.record (c.patterns.entries.map fun e => (e.1, .text e.2))) := by
    refine ⟨by decide, ?_, fun f hf => ?_⟩
    · rw [List.map_map]
      exact c.patterns.nodup_keys
    · obtain ⟨e, -, rfl⟩ := List.mem_map.mp hf
      trivial
  exact List.forall_mem_cons.mpr
    ⟨hdefaults, List.forall_mem_cons.mpr ⟨hignore, List.forall_mem_singleton.mpr hpatterns⟩⟩

theorem writtenIn_toToml {c : Config} (h : ∀ n ∈ c.defaults.maxFileSize?, n.toNat < 1 <<< 63) :
    c.WrittenIn c.toToml := by
  have hnames : (c.fields.map (·.1)).Nodup := by
    show ["defaults", "ignore", "patterns"].Nodup
    decide
  exact ⟨c.toData, Toml.read?_document hnames (fits_fields h), .same c.toData⟩

/-- **A configuration survives serialization.** It is read back as it was from its data, in whatever
order their fields come, and from their JSON text; and a TOML document that has its data is a layer
that is the configuration itself, so whatever it is laid over comes out the same. There is such a
document for every configuration but those with a largest size that is no integer of TOML. -/
theorem serialization_round_trip (c : Config) :
    (∀ surplus d, c.toData.Reordered d → ofData? surplus d = some c) ∧
    (∀ surplus, (Json.read? c.toJson).bind (ofData? surplus) = some c) ∧
    (∀ text, c.WrittenIn text → ofText? text = some c ∧ ∀ disk path,
      disk.tree.text? path = some (.ok text) → layer disk path = .ok [c]) ∧
    ((∃ text, c.WrittenIn text) ↔ ∀ n ∈ c.defaults.maxFileSize?, n.toNat < 1 <<< 63) := by
  refine ⟨fun surplus d => ofData?_of_reordered, fun surplus => ?_, fun text htext => ?_, ?_, ?_⟩
  · rw [read?_toJson]
    exact ofData?_of_reordered (.same c.toData)
  · have hread := ofText?_of_writtenIn htext
    refine ⟨hread, fun disk path hfile => ?_⟩
    simp only [layer, hfile, hread]
  · rintro ⟨text, htext⟩ n hn
    exact toNat_lt_of_writtenIn htext hn
  · exact fun h => ⟨c.toToml, writtenIn_toToml h⟩

/-- A configuration that ignores nothing, leaves its settings open and has one pattern. -/
def unfiltered : Config where
  defaults := {}
  ignore := { paths := [], globs := [] }
  patterns := Dict.ofList [("TicketId", "[A-Z]+-[0-9]+")]

/-- It comes back from its data in another order, and from a document, and ignores nothing then; where
nothing is said of what is ignored, the built-in lists come instead. -/
theorem unfiltered_comes_back :
    ofData? .refused (.record [
      ("patterns", .record [("TicketId", .text "[A-Z]+-[0-9]+")]),
      ("ignore", .record [("globs", .list []), ("paths", .list [])]),
      ("defaults", .record [])]) = some unfiltered ∧
    (∃ text, ofText? text = some unfiltered) ∧
    (ofData? .refused (.record [])).map (·.ignore) = some .builtin ∧
    unfiltered.ignore ≠ .builtin := by
  obtain ⟨hdata, -, htext, hexists⟩ := serialization_round_trip unfiltered
  refine ⟨hdata .refused _ (.record ?_ (List.reverse_perm _)), ?_, rfl, by decide⟩
  · have hlists : Reordered (ignoreToData unfiltered.ignore)
        (.record [("globs", .list []), ("paths", .list [])]) :=
      .record (List.forall₂_same.mpr fun f _ => .refl f) (.swap _ _ [])
    exact .cons (.refl _) (.cons (.mk "ignore" hlists) (.cons (.refl _) .nil))
  · obtain ⟨text, hwritten⟩ := hexists.mpr fun n hn => nomatch hn
    exact ⟨text, (htext text hwritten).1⟩

end SourceEdit.Config
