import SourceEdit.Proofs.Editor.Recording
import SourceEdit.Proofs.Yaml.Ending.Documents

/-!
# What recording leaves alone

The editor that records provenance puts text behind a manifest that it never reads. It changes where
the content comes from and nothing else, unless the manifest ends within a block scalar that takes
up the line end in front of the marker.
-/

namespace SourceEdit

open Yaml (Document GainsLineEnd)
open Outcome (bind_eq_ok_iff)

/-! ## The manifest in front of a marker -/

namespace Manifest

variable {m m' : Manifest} {text : String}

theorem readable_of_foldlM {ds : List (Option Document)}
    (h : ds.foldlM addDocument m = .ok m') : none ∉ ds := by
  induction ds generalizing m with
  | nil => exact List.not_mem_nil
  | cons d ds ih =>
      rw [List.foldlM_cons] at h
      obtain ⟨m₁, hadd, hrest⟩ := bind_eq_ok_iff.mp h
      refine List.not_mem_cons_of_ne_of_not_mem ?_ (ih hrest)
      rintro rfl
      cases hadd

/-- A manifest is read alike with the line of a marker behind it, unless it gains a line end. -/
theorem ofText_marked (hm : ofText text = .ok m) :
    GainsLineEnd text.toList ∨ ofText (text ++ "\n---\n") = .ok m := by
  have hfold : ∀ s : String, ofText s = ofDocuments (Yaml.documents s.toList) := fun _ => rfl
  have hmarked : (text ++ "\n---\n").toList = Yaml.marked text.toList := String.toList_append ..
  rw [hfold] at hm
  rw [hfold, hmarked]
  rcases Yaml.documents_marked_of_readable (readable_of_foldlM hm) with
    hgains | hdocuments | ⟨hnone, hempty⟩
  · exact Or.inl hgains
  · refine Or.inr ?_
    rw [hdocuments, ofDocuments_concat, hm]
    rfl
  · refine Or.inr ?_
    rw [hempty, ← hm, hnone]
    rfl

end Manifest

namespace Editor

variable {p : Project} {file : File} {m : Manifest}

/-! ## Recording -/

/-- **Recording changes the provenance only.** For every project whose manifest is read, the editor
succeeds and changes no file but the manifest, which gets the record behind it. Unless the manifest
gains a line end, it is then read as before, with the origin as its provenance and all else the
same, so the check of the manifest says the same as before. -/
theorem recording_keeps_the_rest (hfile : p.find? Manifest.path = some file)
    (hm : Manifest.ofText file.content = .ok m) (bundle : Bundle) (o : Provenance) :
    ∃ p', (recordProvenance o).run p bundle = (p', .success (recordedMessage o)) ∧
      p'.files = p.files.map (Project.replaceAt Manifest.path (withProvenance file.content o)) ∧
      p'.find? Manifest.path = some { file with content := withProvenance file.content o } ∧
      (GainsLineEnd file.content.toList ∨
        ∃ m', Manifest.ofText (withProvenance file.content o) = .ok m' ∧
          m' = { m with provenance := some o } ∧ m'.validate = m.validate) := by
  obtain ⟨p', hrun, hfiles⟩ := run_recordProvenance bundle hfile o
  refine ⟨p', hrun, hfiles, Project.find?_of_replaced hfiles hfile, ?_⟩
  rcases Manifest.ofText_marked hm with hgains | hmarked
  · exact Or.inl hgains
  · refine Or.inr ⟨_, ?_, rfl, rfl⟩
    have hread := Manifest.ofText_recorded file.content o []
    rw [hmarked] at hread
    exact hread

/-- A manifest whose last line is that of a block, without a line end. The one in front of the
marker becomes part of the version. -/
def openBlockManifest : String :=
  "group: g\nartifact: a\nrequires: 1.0.0\nversion: |\n  1.0"

def openBlockProject : Project where
  files := [⟨Manifest.path, openBlockManifest⟩]
  nodup := by simp
  valid := by decide +kernel

def openBlockRead (version : String) (origin : Option Provenance) : Manifest where
  group := "g"
  artifact := "a"
  requires := some "1.0.0"
  version := some version
  provenance := origin

theorem version_in_open_block_gains_line_end :
    ∃ p' file, Manifest.ofText openBlockManifest = .ok (openBlockRead "1.0" none) ∧
      (recordProvenance ⟨"r", "main", "abc"⟩).run openBlockProject ∅ =
        (p', .success "Recorded r@main (abc) in .atomist/manifest.yml") ∧
      p'.find? Manifest.path = some file ∧
      Manifest.ofText file.content =
        .ok (openBlockRead "1.0\n" (some ⟨"r", "main", "abc"⟩)) ∧
      GainsLineEnd openBlockManifest.toList := by
  have hfile : openBlockProject.find? Manifest.path =
      some ⟨Manifest.path, openBlockManifest⟩ := rfl
  have hread : (Manifest.ofText openBlockManifest).toOption = some (openBlockRead "1.0" none) := by
    decide +kernel
  have hrecorded :
      (Manifest.ofText (withProvenance openBlockManifest ⟨"r", "main", "abc"⟩)).toOption =
        some (openBlockRead "1.0\n" (some ⟨"r", "main", "abc"⟩)) := by
    decide +kernel
  obtain ⟨p', hrun, -, hfound, hkept⟩ :=
    recording_keeps_the_rest hfile (Outcome.eq_ok_of_toOption hread) ∅ ⟨"r", "main", "abc"⟩
  refine ⟨p', _, Outcome.eq_ok_of_toOption hread, hrun, hfound,
    Outcome.eq_ok_of_toOption hrecorded, ?_⟩
  refine hkept.resolve_right ?_
  rintro ⟨m', hm', rfl, -⟩
  rw [hm'] at hrecorded
  exact absurd hrecorded (by decide)

end Editor

end SourceEdit
