import SourceEdit.Proofs.Coordinate
import SourceEdit.Proofs.Manifest.Sum
import SourceEdit.Proofs.Manifest.Valid

/-!
# The coordinates of a manifest

Dependencies and extensions are read from texts, so each is read back from the text that shows it.
The coordinate of the archive itself is made of values that were checked alone: none is blank, but
any may have a colon or blanks around it, and then the coordinate is not the one that its text
names.
-/

namespace SourceEdit

open Coordinate (IsPart ofString?)

namespace Manifest

variable {m : Manifest} {c : Coordinate}

/-! ## Dependencies and extensions -/

theorem isNormal_of_mem_ofParts {ps : List Part}
    (h : c ∈ (ofParts ps).dependencies ++ (ofParts ps).extensions) : c.IsNormal := by
  rcases List.mem_append.mp h with h | h
  · obtain ⟨_, -, hread⟩ := List.mem_filterMap.mp h
    exact Coordinate.isNormal_of_ofString? hread
  · obtain ⟨_, -, hread⟩ := List.mem_filterMap.mp h
    exact Coordinate.isNormal_of_ofString? hread

theorem isNormal_of_ofText {text : String} (h : ofText text = .ok m)
    (hc : c ∈ m.dependencies ++ m.extensions) : c.IsNormal := by
  obtain ⟨-, rfl⟩ := ofDocuments_eq_ok_iff.mp h
  exact isNormal_of_mem_ofParts hc

/-- **Coordinates are read and shown alike.** A text is read as a coordinate just if it has two
colons and something other than blanks before, between and behind them; the coordinate is what
stands there, without the blanks around it. Any other text is refused as it came. What was read is
read back from the text that shows it, and no other coordinate that can be read is shown as the same
text. The dependencies and the extensions of a manifest are of this kind. -/
theorem coordinates_read_back :
    (∀ s, (∃ c, ofString? s = some c) ↔ s.toList.count ':' = 2 ∧
      ∀ f ∈ Text.fields ':' s.toList, ∃ x ∈ f, Text.isBlank x = false) ∧
    (∀ s c, ofString? s = some c ↔ ∃ g a v, s.toList = g ++ ':' :: (a ++ ':' :: v) ∧
      IsPart g ∧ IsPart a ∧ IsPart v ∧ c = Coordinate.ofParts g a v) ∧
    (∀ s, (∀ c, ofString? s ≠ some c) → coordinates [s] = .error (.invalidCoordinate s)) ∧
    (∀ s c, ofString? s = some c → ofString? c.toText = some c) ∧
    (∀ s s' c c', ofString? s = some c → ofString? s' = some c' → c.toText = c'.toText → c = c') ∧
    ∀ text m, ofText text = .ok m →
      ∀ c ∈ m.dependencies ++ m.extensions, ofString? c.toText = some c := by
  refine ⟨fun _ => Coordinate.exists_ofString?_iff,
    fun _ _ => Coordinate.ofString?_eq_some_iff_append, ?_, ?_, ?_, ?_⟩
  · intro s hnone
    have hbad : isNoCoordinate s = true :=
      Option.isNone_iff_eq_none.mpr (Option.eq_none_iff_forall_ne_some.mpr hnone)
    exact coordinates_of_bad (List.find?_cons_of_pos hbad)
  · intro s c h
    exact Coordinate.ofString?_toText_iff.mpr (Coordinate.isNormal_of_ofString? h)
  · intro s s' c c' h h'
    exact (Coordinate.isNormal_of_ofString? h).eq_of_toText_eq (Coordinate.isNormal_of_ofString? h')
  · intro text m h c hc
    exact Coordinate.ofString?_toText_iff.mpr (isNormal_of_ofText h hc)

/-! ## The archive itself -/

theorem notBlank_of_checkVersion {key v : String} (h : checkVersion key (some v) = .ok ()) :
    ∃ x ∈ v.toList, Text.isBlank x = false := by
  rw [← Coordinate.isEmpty_trim_iff, List.isEmpty_eq_false_iff]
  rcases checkVersion_some_eq_ok_iff.mp h with hplain | hranges
  · exact hplain.notEmpty
  · obtain ⟨o, inner, c, hends, -⟩ := hranges.ends
    rw [hends]
    exact List.cons_ne_nil _ _

/-- A valid manifest has a coordinate, and none of its parts is blank. -/
theorem coordinate_of_validate (h : m.validate = .ok ()) : ∃ c, m.coordinate = some c ∧
    (c.group = m.group ∧ c.artifact = m.artifact ∧ m.version = some c.version) ∧
    ∀ f ∈ c.parts, ∃ x ∈ f, Text.isBlank x = false := by
  obtain ⟨hgroup, hartifact, hversion, -⟩ := validate_eq_ok_iff.mp h
  obtain ⟨v, hv, hversion⟩ := checkVersion_eq_ok_iff.mp hversion
  refine ⟨⟨m.group, m.artifact, v⟩, by rw [coordinate, hv]; rfl, ⟨rfl, rfl, hv⟩, ?_⟩
  have hnotBlank : ∀ {cs}, Text.trim cs ≠ [] → ∃ x ∈ cs, Text.isBlank x = false :=
    fun h => Coordinate.isEmpty_trim_iff.mp (List.isEmpty_eq_false_iff.mpr h)
  exact Coordinate.forall_mem_parts.mpr
    ⟨hnotBlank hgroup, hnotBlank hartifact, notBlank_of_checkVersion hversion⟩

/-- **The coordinate of a valid manifest** is read back from its text just if none of its parts has
a colon or blanks around it. With a colon in a part its text is no coordinate at all, and otherwise
it is read without the blanks. Every dependency and extension is read back. -/
theorem own_coordinate_read_back_iff (h : m.validate = .ok ()) :
    ∃ c, m.coordinate = some c ∧
      (c.group = m.group ∧ c.artifact = m.artifact ∧ m.version = some c.version) ∧
      (ofString? c.toText = some c ↔ ∀ f ∈ c.parts, ':' ∉ f ∧ Text.trim f = f) ∧
      ((∃ f ∈ c.parts, ':' ∈ f) → ofString? c.toText = none) ∧
      ((∀ f ∈ c.parts, ':' ∉ f) → ofString? c.toText =
        some (.ofParts c.group.toList c.artifact.toList c.version.toList)) ∧
      ∀ text, ofText text = .ok m →
        ∀ d ∈ m.dependencies ++ m.extensions, ofString? d.toText = some d := by
  obtain ⟨c, hc, hfields, hfull⟩ := coordinate_of_validate h
  refine ⟨c, hc, hfields, ?_, ?_, ?_, ?_⟩
  · rw [Coordinate.ofString?_toText_iff]
    exact ⟨fun hnormal f hf => ⟨(hnormal f hf).1.noColon, (hnormal f hf).2⟩,
      fun hparts f hf => ⟨⟨(hparts f hf).1, hfull f hf⟩, (hparts f hf).2⟩⟩
  · rintro ⟨f, hf, hcolon⟩
    rw [Option.eq_none_iff_forall_ne_some]
    intro c' hread
    exact ((Coordinate.ofString?_toText_eq_some_iff.mp hread).1 f hf).noColon hcolon
  · intro hfree
    exact Coordinate.ofString?_toText_eq_some_iff.mpr
      ⟨fun f hf => ⟨hfree f hf, hfull f hf⟩, rfl⟩
  · intro text hread d hd
    exact Coordinate.ofString?_toText_iff.mpr (isNormal_of_ofText hread hd)

def colonManifest : Manifest where
  group := "g:h"
  artifact := "a"
  version := some "1.0"
  requires := some "1.0"

/-- The manifest is valid, but its coordinate is shown with four parts. -/
theorem colon_in_group_is_shown : colonManifest.validate = .ok () ∧
    ∃ c, colonManifest.coordinate = some c ∧ c.toText = "g:h:a:1.0" ∧
      ofString? c.toText = none := by
  have hvalid : colonManifest.validate = .ok () := by decide +kernel
  obtain ⟨c, hc, -, -, hcolon, -⟩ := own_coordinate_read_back_iff hvalid
  obtain rfl := Option.some.inj hc
  exact ⟨hvalid, _, rfl, rfl, hcolon ⟨_, List.mem_cons_self .., by decide⟩⟩

end Manifest

end SourceEdit
