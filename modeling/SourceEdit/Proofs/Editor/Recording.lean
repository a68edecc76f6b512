import SourceEdit.Proofs.Manifest.Provenance
import SourceEdit.Proofs.Project.Ordered

/-!
# Recording where a project comes from

The editor that records provenance succeeds on every project and changes nothing but the content of
the manifest. Run again and again, it leaves the last origin there, character by character, unless
the manifest cannot be read with a document behind it.
-/

namespace SourceEdit

open Manifest (recorded originRecord)
open Yaml (Document recordDocument)

variable {p p' : Project} {path content : String} {file : File} {bundle : Bundle}

/-! ## Replacing a file -/

namespace Project

theorem find?_of_replaced (hfiles : p'.files = p.files.map (replaceAt path content))
    (hfile : p.find? path = some file) : p'.find? path = some { file with content } := by
  rw [find?_replaced hfiles, hfile, Option.map_some, replaceAt,
    if_pos (find?_eq_some_iff.mp hfile).2]

theorem replaceAt_replaceAt (path content content' : String) (f : File) :
    replaceAt path content' (replaceAt path content f) = replaceAt path content' f := by
  by_cases h : f.path = path
  · have hfirst : replaceAt path content f = { f with content } := if_pos h
    have hsecond : replaceAt path content' f = { f with content := content' } := if_pos h
    rw [hfirst, hsecond]
    exact if_pos h
  · have hkeep : ∀ content, replaceAt path content f = f := fun _ => if_neg h
    rw [hkeep, hkeep]

end Project

namespace Editor

/-! ## Runs -/

def recordedMessage (o : Provenance) : String :=
  "Recorded " ++ o.repo ++ "@" ++ o.branch ++ " (" ++ o.sha ++ ") in " ++ Manifest.path

/-- Records one origin after another. The results come in the same order. -/
def recordEach (bundle : Bundle) : List Provenance → Project → Project × List EditResult
  | [], p => (p, [])
  | o :: os, p =>
    let (p', result) := (recordProvenance o).run p bundle
    let (p'', results) := recordEach bundle os p'
    (p'', result :: results)

/-- One run puts the record of its origin behind the manifest. -/
theorem run_recordProvenance (bundle : Bundle) (hfile : p.find? Manifest.path = some file)
    (o : Provenance) :
    ∃ p', (recordProvenance o).run p bundle = (p', .success (recordedMessage o)) ∧
      p'.files = p.files.map (Project.replaceAt Manifest.path (withProvenance file.content o)) := by
  have hpath : Manifest.path ∈ p.files.map (·.path) :=
    List.mem_map.mpr ⟨file, Project.find?_eq_some_iff.mp hfile⟩
  obtain ⟨p', hupdate, hfiles⟩ := Project.update_of_mem hpath (withProvenance file.content o)
  refine ⟨p', ?_, hfiles⟩
  have hedit : ((recordProvenance o).edit bundle).run p =
      (p', .ok (.success (recordedMessage o))) := by
    simp only [recordProvenance, Edit.run, hfile, hupdate]
    rfl
  rw [run, hedit]

/-- Only the content of the manifest is different in the end: the records of all origins stand
behind it, in their order. -/
theorem recordEach_cons (bundle : Bundle) (hfile : p.find? Manifest.path = some file)
    (o : Provenance) (os : List Provenance) :
    ∃ p', recordEach bundle (o :: os) p =
        (p', (o :: os).map fun o => .success (recordedMessage o)) ∧
      p'.files =
        p.files.map (Project.replaceAt Manifest.path (recorded file.content (o :: os))) := by
  induction os generalizing p file o with
  | nil =>
      obtain ⟨p', hrun, hfiles⟩ := run_recordProvenance bundle hfile o
      refine ⟨p', ?_, hfiles⟩
      rw [recordEach, hrun]
      rfl
  | cons o' os ih =>
      obtain ⟨p₁, hrun, hfiles₁⟩ := run_recordProvenance bundle hfile o
      obtain ⟨p', hruns, hfiles⟩ := ih (Project.find?_of_replaced hfiles₁ hfile) o'
      refine ⟨p', ?_, ?_⟩
      · rw [recordEach, hrun]
        dsimp only
        rw [hruns]
        rfl
      · rw [hfiles, hfiles₁, List.map_map]
        exact congrArg (List.map · p.files) (funext fun f => Project.replaceAt_replaceAt ..)

/-! ## Provenance comes back -/

/-- **Provenance comes back.** The editor succeeds for every origin, whatever its texts are, and
only the content of the manifest is different in the end. That content can be read, with the last
origin as its provenance, if and only if the content at the start can be read with the line of a
marker behind it. Then all else in the manifest is read as from there, and the documents are those
in front of the marker and one mapping of three entries for each origin: no text of an origin adds a
document, a key or an entry of a list. -/
theorem provenance_comes_back_iff (hfile : p.find? Manifest.path = some file) (bundle : Bundle)
    (o : Provenance) (os : List Provenance) :
    ∃ p' content, recordEach bundle (o :: os) p =
        (p', (o :: os).map fun o => .success (recordedMessage o)) ∧
      p'.files = p.files.map (Project.replaceAt Manifest.path content) ∧
      p'.find? Manifest.path = some { file with content } ∧
      ((∃ m, Manifest.ofText content = .ok m ∧
          m.provenance = some ((o :: os).getLast (List.cons_ne_nil o os))) ↔
        ∃ m, Manifest.ofText (file.content ++ "\n---\n") = .ok m) ∧
      ∀ m, Manifest.ofText (file.content ++ "\n---\n") = .ok m →
        Manifest.ofText content = .ok { m with
          provenance := some ((o :: os).getLast (List.cons_ne_nil o os)) } ∧
        ∃ ds, Yaml.documents (file.content ++ "\n---\n").toList =
            ds ++ [some (Document.ofRoot .missing)] ∧
          Yaml.documents content.toList =
            ds ++ (o :: os).map fun o => some (recordDocument (originRecord o)) := by
  obtain ⟨p', hruns, hfiles⟩ := recordEach_cons bundle hfile o os
  have hread := Manifest.ofText_recorded file.content o os
  refine ⟨p', recorded file.content (o :: os), hruns, hfiles,
    Project.find?_of_replaced hfiles hfile, ⟨?_, ?_⟩, ?_⟩
  · rintro ⟨m, hm, -⟩
    rw [hread] at hm
    cases hmarked : Manifest.ofText (file.content ++ "\n---\n") with
    | ok m => exact ⟨m, rfl⟩
    | error e =>
        rw [hmarked] at hm
        cases hm
  · rintro ⟨m, hm⟩
    rw [hm] at hread
    exact ⟨_, hread, rfl⟩
  · intro m hm
    rw [hm] at hread
    refine ⟨hread, ?_⟩
    rcases Manifest.documents_recorded file.content o os with ⟨ds, hshort, -⟩ | hboth
    · have hfault : Manifest.ofText (file.content ++ "\n---\n") =
          Manifest.ofDocuments (ds ++ [none]) := congrArg Manifest.ofDocuments hshort
      rw [hm, Manifest.ofDocuments_concat] at hfault
      cases hds : Manifest.ofDocuments ds with
      | ok m' =>
          rw [hds] at hfault
          cases hfault
      | error e =>
          rw [hds] at hfault
          cases hfault
    · exact hboth

/-- A manifest whose last line is that of a block and has not ended. The line end in front of the
marker becomes part of the block, which is no integer any more. -/
def blockManifest : String :=
  "group: g\nartifact: a\nrequires: 1.0.0\nversion: !!int |\n  5"

def blockProject : Project where
  files := [⟨Manifest.path, blockManifest⟩]
  nodup := by simp
  valid := by decide +kernel

theorem provenance_behind_block_is_lost :
    ∃ p' content, recordEach ∅ [⟨"r", "main", "abc"⟩] blockProject =
        (p', [.success "Recorded r@main (abc) in .atomist/manifest.yml"]) ∧
      p'.find? Manifest.path = some ⟨Manifest.path, content⟩ ∧
      (∃ m, Manifest.ofText blockManifest = .ok m) ∧
      ¬ ∃ m, Manifest.ofText content = .ok m ∧ m.provenance = some ⟨"r", "main", "abc"⟩ := by
  have hmanifest : blockProject.find? Manifest.path = some ⟨Manifest.path, blockManifest⟩ := rfl
  obtain ⟨p', content, hrun, -, hfile, hiff, -⟩ :=
    provenance_comes_back_iff hmanifest ∅ ⟨"r", "main", "abc"⟩ []
  have hread : (Manifest.ofText blockManifest).toOption.isSome = true := by decide +kernel
  have hlost : (Manifest.ofText (blockManifest ++ "\n---\n")).toOption = none := by decide +kernel
  refine ⟨p', content, hrun, hfile, ?_, ?_⟩
  · cases hm : Manifest.ofText blockManifest with
    | ok m => exact ⟨m, rfl⟩
    | error e =>
        rw [hm] at hread
        cases hread
  · rw [show (some (⟨"r", "main", "abc"⟩ : Provenance)) =
      some (List.getLast [⟨"r", "main", "abc"⟩] (List.cons_ne_nil _ [])) from rfl, hiff]
    rintro ⟨m, hm⟩
    rw [show Manifest.ofText (blockManifest ++ "\n---\n") = .ok m from hm] at hlost
    cases hlost

end Editor

end SourceEdit
