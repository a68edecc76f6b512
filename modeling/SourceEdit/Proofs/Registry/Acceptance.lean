import SourceEdit.Proofs.Config.Layers
import SourceEdit.Proofs.Parameter
import SourceEdit.Proofs.Registry.Requests

/-!
# Values for the built-in editors

Which texts the built-in editors take as values of their parameters. The one declares a pattern by
its name in the catalog, the other the pattern itself; either stands for a repeated set of
characters, and the text has to consist of these characters from its first to its last.
-/

namespace SourceEdit

open Unicode (CodeSet)
open Editor (generatedPath Generates)

/-! ## The two patterns -/

/-- The characters that a dot stands for: all but the newline. -/
def lineSet : CodeSet := ⟨[(0, 9), (11, Unicode.lastCode)]⟩

theorem contains_full (c : Char) : CodeSet.full.contains c = true := by
  have hlast : c.toNat ≤ Unicode.lastCode := Unicode.toNat_le_lastCode c
  simpa [CodeSet.full, CodeSet.range, CodeSet.contains, CodeSet.hasCode] using hlast

theorem contains_lineSet {c : Char} : lineSet.contains c = true ↔ c ≠ '\n' := by
  have hlast : c.toNat ≤ Unicode.lastCode := Unicode.toNat_le_lastCode c
  have hnewline : c ≠ '\n' ↔ c.toNat ≠ 10 := not_congr Char.toNat_inj.symm
  rw [hnewline]
  simp only [lineSet, CodeSet.contains, CodeSet.hasCode, List.any_cons, List.any_nil,
    Bool.or_false, Bool.or_eq_true, Bool.and_eq_true, decide_eq_true_eq]
  omega

theorem read_anyLine : Pattern.read? ".*".toList = some (.times 0 none (.leaf lineSet)) := by
  decide +kernel

theorem read_anyText : Pattern.read? "(?s).*".toList =
    some (.seq .empty (.times 0 none (.leaf .full))) := by
  decide +kernel

variable {catalog : Catalog} {value : String}

theorem Catalog.fits_anyLine : catalog.Fits ".*" value ↔ '\n' ∉ value.toList := by
  have hresolve : catalog.resolve? ".*" = some ".*" := rfl
  rw [Catalog.fits_iff_accepts hresolve read_anyLine (by decide +kernel) rfl,
    Pattern.accepts_times_leaf]
  simp only [contains_lineSet, Nat.zero_le, true_and]
  constructor
  · intro hline hmem
    exact hline '\n' hmem rfl
  · rintro hnone c hc rfl
    exact hnone hc

theorem Catalog.fits_anyText (hcontent : catalog.get? "ContentPattern" = some "(?s).*") :
    catalog.Fits "$ContentPattern" value := by
  have hresolve : catalog.resolve? "$ContentPattern" = some "(?s).*" := hcontent
  rw [Catalog.fits_iff_accepts hresolve read_anyText (by decide +kernel) rfl]
  -- the flag itself takes no character
  refine ⟨[], value.toList, rfl, rfl, Pattern.accepts_times_leaf.mpr ⟨Nat.zero_le _, ?_⟩⟩
  intro c _
  exact contains_full c

/-! ## One parameter -/

def Dict.single (name value : String) : Dict String :=
  (∅ : Dict String).insert name value

theorem Dict.get?_single (name value k : String) :
    (single name value).get? k = if k = name then some value else none :=
  get?_insert ∅ name k value

/-- Where one parameter is declared and a value is supplied for it and for nothing else, binding
succeeds exactly if the parameter accepts the value. -/
theorem Schema.bind_single_iff {d : Parameter} :
    (∃ b, Schema.bind ⟨[d]⟩ (.single d.name value) catalog = .ok b) ↔ d.Accepts catalog value := by
  have heffective : d.effective? (.single d.name value) = some value := by
    rw [Parameter.effective?, Dict.get?_single, if_pos rfl]
  simp only [Schema.bind_eq_ok_iff, exists_and_left, exists_eq, and_true, Schema.Admits,
    List.mem_singleton, forall_eq, exists_eq_left, Dict.mem_keys_iff, Parameter.Admits]
  constructor
  · rintro ⟨-, -, haccepts⟩
    exact haccepts value heffective
  · intro haccepts
    refine ⟨fun name hname => ?_, fun _ => ?_, fun value' hvalue' => ?_⟩
    · by_contra hne
      rw [Dict.get?_single, if_neg (Ne.symm hne)] at hname
      cases hname
    · rw [Dict.get?_single, if_pos rfl]
      rfl
    · rw [heffective] at hvalue'
      exact Option.some.inj hvalue' ▸ haccepts

namespace Registry

variable {r : Registry} {p : Project} {editor : Editor} {name : String} {raw : Dict String}

theorem bind_single_iff {d : Parameter} (hfind : r.find name = .ok editor)
    (hschema : editor.schema = ⟨[d]⟩) :
    (∃ b, r.bind name (.single d.name value) = .ok b) ↔ d.Accepts r.catalog value := by
  rw [bind_of_found hfind, hschema, ← Schema.bind_single_iff]
  cases Schema.bind ⟨[d]⟩ (.single d.name value) r.catalog with
  | ok b => simp [Except.mapError]
  | error e => simp [Except.mapError]

theorem invoke_eq_ok_iff (hfind : r.find name = .ok editor) {a : Project × EditResult} :
    r.invoke name p raw = .ok a ↔ ∃ b, r.bind name raw = .ok b ∧ a = editor.run p b := by
  rw [invoke, Outcome.bind_eq_ok_iff]
  simp only [run_of_found hfind, Except.ok.injEq, eq_comm]

theorem invoke_isOk_iff (hfind : r.find name = .ok editor) :
    (∃ a, r.invoke name p raw = .ok a) ↔ ∃ b, r.bind name raw = .ok b := by
  simp only [invoke_eq_ok_iff hfind]
  constructor
  · rintro ⟨_, b, hb, -⟩
    exact ⟨b, hb⟩
  · rintro ⟨b, hb⟩
    exact ⟨_, b, hb, rfl⟩

/-! ## The built-in editors -/

theorem find_addContent (catalog : Catalog) :
    (withBuiltins catalog).find "AddContentEditor" = .ok .addContent :=
  (bindsFirst_registry catalog .builtins).shows.find "AddContentEditor"

theorem find_pomReport (catalog : Catalog) :
    (withBuiltins catalog).find "PomReportEditor" = .ok (.pomReport .pathExpressions) :=
  (bindsFirst_registry catalog .builtins).shows.find "PomReportEditor"

theorem bind_addContent_iff (hcontent : catalog.get? "ContentPattern" = some "(?s).*") :
    (∃ b, (withBuiltins catalog).bind "AddContentEditor" (.single "content" value) = .ok b) ↔
      value.length ≤ 100 := by
  refine (bind_single_iff (find_addContent catalog) rfl).trans ?_
  exact and_iff_left (Catalog.fits_anyText hcontent)

theorem bind_pomReport_iff (catalog : Catalog) :
    (∃ b, (withBuiltins catalog).bind "PomReportEditor" (.single "packageName" value) = .ok b) ↔
      value.length ≤ 100 ∧ '\n' ∉ value.toList := by
  refine (bind_single_iff (find_pomReport catalog) rfl).trans ?_
  exact and_congr_right fun _ => Catalog.fits_anyLine

/-- Content that is taken becomes the generated file as it is. -/
theorem generates_of_invoke_addContent {a : Project × EditResult}
    (h : (withBuiltins catalog).invoke "AddContentEditor" p (.single "content" value) = .ok a) :
    Generates "AddContentEditor" value p a := by
  obtain ⟨b, hbind, rfl⟩ := (invoke_eq_ok_iff (find_addContent catalog)).mp h
  have hvalue : ∃ content, (Dict.single "content" value).get? "content" = some content ∧
      b.get? "content" = some content :=
    get?_of_bind (find_addContent catalog) hbind ⟨_, List.mem_singleton_self _, rfl, rfl⟩
  obtain ⟨content, hraw, hget⟩ := hvalue
  rw [Dict.get?_single, if_pos rfl] at hraw
  obtain rfl := Option.some.inj hraw
  exact Editor.generates_addContent hget p

/-- The built-in editors with the patterns of a configuration that says nothing. -/
def unconfigured : Registry := withBuiltins Config.empty.catalog

/-- **What the built-in editors take.** Content is taken exactly if it has at most a hundred
characters, whichever they are, and a package name exactly if it has at most a hundred, none of them
a newline. The editor runs in these cases and no others. Content that is taken is added as it
is if no file has the path of generated files; if one does, the edit fails and the project stays as
it is. -/
theorem builtins_accept_exactly (p : Project) (value : String) :
    ((∃ b, unconfigured.bind "AddContentEditor" (.single "content" value) = .ok b) ↔
      value.length ≤ 100) ∧
    ((∃ a, unconfigured.invoke "AddContentEditor" p (.single "content" value) = .ok a) ↔
      value.length ≤ 100) ∧
    ((∃ b, unconfigured.bind "PomReportEditor" (.single "packageName" value) = .ok b) ↔
      value.length ≤ 100 ∧ '\n' ∉ value.toList) ∧
    ((∃ a, unconfigured.invoke "PomReportEditor" p (.single "packageName" value) = .ok a) ↔
      value.length ≤ 100 ∧ '\n' ∉ value.toList) ∧
    ∀ p' result,
      unconfigured.invoke "AddContentEditor" p (.single "content" value) = .ok (p', result) →
      (result.status = .success ↔ generatedPath ∉ p.files.map (·.path)) ∧
      (result.status = .success → p'.files = p.files ++ [⟨"src/from/typescript", value⟩]) ∧
      (result.status ≠ .success → p' = p) := by
  have hcontent : Config.empty.catalog.get? "ContentPattern" = some "(?s).*" := by
    rw [Config.get?_catalog]
    decide +kernel
  refine ⟨bind_addContent_iff hcontent, ?_, bind_pomReport_iff _, ?_, fun p' result h => ?_⟩
  · exact (invoke_isOk_iff (find_addContent _)).trans (bind_addContent_iff hcontent)
  · exact (invoke_isOk_iff (find_pomReport _)).trans (bind_pomReport_iff _)
  · cases generates_of_invoke_addContent h with
    | added hfree hfiles =>
        exact ⟨iff_of_true rfl hfree, fun _ => hfiles, fun hnot => absurd rfl hnot⟩
    | taken htaken =>
        exact ⟨iff_of_false nofun (not_not_intro htaken), nofun, fun _ => rfl⟩

end Registry

end SourceEdit
