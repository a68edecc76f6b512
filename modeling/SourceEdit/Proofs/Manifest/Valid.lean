import SourceEdit.Manifest.Reader
import SourceEdit.Proofs.Outcome
import SourceEdit.Proofs.Version.Grammar

/-!
# Valid manifests

What the checks of a manifest accept, told by its values: group and artifact that are not blank, and
constraints that are a version or ranges, with blanks around them or without.
-/

namespace SourceEdit.Manifest

open Outcome

variable {m : Manifest} {project : Project} {key v : String}

theorem checkVersion_some_eq_ok_iff : checkVersion key (some v) = .ok () ↔
    Version.IsPlain (Text.trim v.toList) ∨ Version.AreRanges (Text.trim v.toList) := by
  rw [← Version.isVersionOrRange_iff, checkVersion]
  split
  · next h => exact ⟨fun _ => h, fun _ => rfl⟩
  · next h => exact ⟨nofun, fun hcheck => absurd hcheck h⟩

theorem checkVersion_some_eq_ok_iff_padded : checkVersion key (some v) = .ok () ↔
    Text.Padded Version.IsPlain v.toList ∨ Text.Padded Version.AreRanges v.toList := by
  rw [checkVersion_some_eq_ok_iff, Text.padded_iff_trim Version.IsPlain.trim_eq,
    Text.padded_iff_trim Version.AreRanges.trim_eq]

/-- What is not accepted is refused as it came. -/
theorem checkVersion_some_eq_error (h : checkVersion key (some v) ≠ .ok ()) :
    checkVersion key (some v) = .error (.invalidVersion key v) := by
  rw [checkVersion] at h ⊢
  split
  · next hcheck => exact absurd (if_pos hcheck) h
  · rfl

theorem checkVersion_eq_ok_iff {value : Option String} : checkVersion key value = .ok () ↔
    ∃ v, value = some v ∧ checkVersion key (some v) = .ok () := by
  cases value with
  | none => exact ⟨nofun, nofun⟩
  | some v => exact ⟨fun h => ⟨v, rfl, h⟩, fun ⟨_, hv, h⟩ => Option.some.inj hv ▸ h⟩

/-- **A valid manifest** passes all four checks. -/
theorem validate_eq_ok_iff : m.validate = .ok () ↔
    Text.trim m.group.toList ≠ [] ∧ Text.trim m.artifact.toList ≠ [] ∧
      checkVersion "version" m.version = .ok () ∧ checkVersion "requires" m.requires = .ok () := by
  have hversions : (checkVersion "version" m.version >>= fun _ =>
      checkVersion "requires" m.requires) = .ok () ↔ checkVersion "version" m.version = .ok () ∧
        checkVersion "requires" m.requires = .ok () := by
    rw [bind_eq_ok_iff]
    exact ⟨fun ⟨_, h⟩ => h, fun h => ⟨(), h⟩⟩
  rw [← hversions, validate]
  by_cases hgroup : Text.trim m.group.toList = []
  · rw [if_pos (List.isEmpty_iff.mpr hgroup)]
    exact ⟨nofun, fun h => absurd hgroup h.1⟩
  · rw [if_neg (mt List.isEmpty_iff.mp hgroup)]
    by_cases hartifact : Text.trim m.artifact.toList = []
    · rw [if_pos (List.isEmpty_iff.mpr hartifact)]
      exact ⟨nofun, fun h => absurd hartifact h.2.1⟩
    · rw [if_neg (mt List.isEmpty_iff.mp hartifact)]
      exact ⟨fun h => ⟨hgroup, hartifact, h⟩, fun h => h.2.2⟩

theorem ofProject_eq_ok_iff : ofProject project = .ok m ↔ ∃ file,
    project.find? path = some file ∧ ofText file.content = .ok m ∧ m.validate = .ok () := by
  rw [ofProject]
  cases project.find? path with
  | none => exact ⟨nofun, nofun⟩
  | some file =>
      simp only [bind_eq_ok_iff, pure_eq_ok_iff, Option.some.injEq, exists_eq_left']
      constructor
      · rintro ⟨_, hread, _, hvalid, rfl⟩
        exact ⟨hread, hvalid⟩
      · rintro ⟨hread, hvalid⟩
        exact ⟨m, hread, (), hvalid, rfl⟩

end SourceEdit.Manifest
