import SourceEdit.Manifest.Coordinate
import SourceEdit.Proofs.Text.Fields
import Mathlib.Data.List.Basic

/-!
# Coordinates and their texts

A coordinate is read from three parts with colons between them. Its own text is read back as the
same coordinate just if none of its parts has a colon or blanks at its ends, and of this kind is
every coordinate that was read from a text.
-/

namespace SourceEdit.Coordinate

variable {text text' : String} {c c' : Coordinate}

/-! ## Reading -/

/-- A part of a coordinate as it is written: without a colon, and not only blanks. -/
structure IsPart (cs : List Char) : Prop where
  noColon : ':' ∉ cs
  notBlank : ∃ x ∈ cs, Text.isBlank x = false

def ofParts (g a v : List Char) : Coordinate :=
  ⟨String.ofList (Text.trim g), String.ofList (Text.trim a), String.ofList (Text.trim v)⟩

theorem isEmpty_trim_iff {cs : List Char} :
    (Text.trim cs).isEmpty = false ↔ ∃ x ∈ cs, Text.isBlank x = false := by
  rw [List.isEmpty_eq_false_iff, ne_eq, Text.trim_eq_nil_iff]
  simp

/-- **What is a coordinate.** Three parts with colons between them. -/
theorem ofString?_eq_some_iff : ofString? text = some c ↔ ∃ g a v,
    Text.fields ':' text.toList = [g, a, v] ∧ IsPart g ∧ IsPart a ∧ IsPart v ∧
      c = ofParts g a v := by
  unfold ofString?
  constructor
  · intro h
    cases hf : Text.fields ':' text.toList with
    | nil => exact absurd hf (Text.fields_ne_nil _ _)
    | cons g rest =>
        rw [hf] at h
        rcases rest with _ | ⟨a, _ | ⟨v, _ | ⟨f, fs⟩⟩⟩
        · cases h
        · cases h
        · have hfree : ∀ f ∈ [g, a, v], ':' ∉ f :=
            fun f hf' => Text.not_mem_of_mem_fields (hf ▸ hf')
          simp only [List.map_cons, List.map_nil] at h
          split at h
          · cases h
          · next hfull =>
            simp only [Bool.or_eq_true, not_or, Bool.not_eq_true, isEmpty_trim_iff] at hfull
            obtain ⟨⟨hg, ha⟩, hv⟩ := hfull
            refine ⟨g, a, v, rfl, ⟨hfree g (by simp), hg⟩, ⟨hfree a (by simp), ha⟩,
              ⟨hfree v (by simp), hv⟩, (Option.some.inj h).symm⟩
        · cases h
  · rintro ⟨g, a, v, hf, hg, ha, hv, rfl⟩
    rw [hf]
    simp only [List.map_cons, List.map_nil, isEmpty_trim_iff.mpr hg.notBlank,
      isEmpty_trim_iff.mpr ha.notBlank, isEmpty_trim_iff.mpr hv.notBlank, Bool.or_self]
    rfl

theorem ofString?_eq_some_iff_append : ofString? text = some c ↔ ∃ g a v,
    text.toList = g ++ ':' :: (a ++ ':' :: v) ∧ IsPart g ∧ IsPart a ∧ IsPart v ∧
      c = ofParts g a v := by
  rw [ofString?_eq_some_iff]
  constructor
  · rintro ⟨g, a, v, hf, hparts⟩
    exact ⟨g, a, v, ((Text.fields_eq_iff (by simp)).mp hf).1, hparts⟩
  · rintro ⟨g, a, v, htext, hg, ha, hv, hc⟩
    refine ⟨g, a, v, (Text.fields_eq_iff (by simp)).mpr ⟨htext, ?_⟩, hg, ha, hv, hc⟩
    simp [hg.noColon, ha.noColon, hv.noColon]

theorem exists_ofString?_iff : (∃ c, ofString? text = some c) ↔ text.toList.count ':' = 2 ∧
    ∀ f ∈ Text.fields ':' text.toList, ∃ x ∈ f, Text.isBlank x = false := by
  have hlength := Text.length_fields ':' text.toList
  constructor
  · rintro ⟨c, h⟩
    obtain ⟨g, a, v, hf, hg, ha, hv, -⟩ := ofString?_eq_some_iff.mp h
    rw [hf] at hlength ⊢
    refine ⟨Nat.succ.inj hlength.symm, ?_⟩
    simp [hg.notBlank, ha.notBlank, hv.notBlank]
  · rintro ⟨hcount, hfull⟩
    rw [hcount] at hlength
    obtain ⟨g, a, v, hf⟩ := List.length_eq_three.mp hlength
    have hpart : ∀ f ∈ [g, a, v], IsPart f := by
      intro f hmem
      rw [← hf] at hmem
      exact ⟨Text.not_mem_of_mem_fields hmem, hfull f hmem⟩
    exact ⟨_, ofString?_eq_some_iff.mpr
      ⟨g, a, v, hf, hpart g (by simp), hpart a (by simp), hpart v (by simp), rfl⟩⟩

/-! ## Reading what was written -/

def parts (c : Coordinate) : List (List Char) :=
  [c.group.toList, c.artifact.toList, c.version.toList]

theorem forall_mem_parts {P : List Char → Prop} : (∀ f ∈ c.parts, P f) ↔
    P c.group.toList ∧ P c.artifact.toList ∧ P c.version.toList := by
  simp [parts]

theorem toList_toText (c : Coordinate) : c.toText.toList = Text.join ':' c.parts := by
  simp [toText, parts, Text.join]

theorem fields_toText (h : ∀ f ∈ c.parts, ':' ∉ f) :
    Text.fields ':' c.toText.toList = c.parts := by
  rw [toList_toText]
  exact Text.fields_join (List.cons_ne_nil _ _) h

theorem noColon_of_count (h : c.toText.toList.count ':' = 2) : ∀ f ∈ c.parts, ':' ∉ f := by
  -- two colons stand between the parts, which leaves none for them
  have hcount : c.group.toList.count ':' = 0 ∧ c.artifact.toList.count ':' = 0 ∧
      c.version.toList.count ':' = 0 := by
    simp only [toList_toText, parts, Text.join, List.count_append, List.count_cons_self] at h
    omega
  obtain ⟨hg, ha, hv⟩ := hcount
  exact forall_mem_parts.mpr
    ⟨List.count_eq_zero.mp hg, List.count_eq_zero.mp ha, List.count_eq_zero.mp hv⟩

/-- **The text of a coordinate** is read if each of its parts is one, and then without the blanks
around them. -/
theorem ofString?_toText_eq_some_iff : ofString? c.toText = some c' ↔
    (∀ f ∈ c.parts, IsPart f) ∧ c' = ofParts c.group.toList c.artifact.toList c.version.toList := by
  constructor
  · intro h
    have hfree := noColon_of_count (exists_ofString?_iff.mp ⟨c', h⟩).1
    obtain ⟨g, a, v, hf, hg, ha, hv, rfl⟩ := ofString?_eq_some_iff.mp h
    rw [fields_toText hfree] at hf
    cases hf
    exact ⟨forall_mem_parts.mpr ⟨hg, ha, hv⟩, rfl⟩
  · rintro ⟨hparts, rfl⟩
    have hfree := fields_toText fun f hf => (hparts f hf).noColon
    obtain ⟨hg, ha, hv⟩ := forall_mem_parts.mp hparts
    exact ofString?_eq_some_iff.mpr ⟨_, _, _, hfree, hg, ha, hv, rfl⟩

/-- A coordinate is normal if its parts have no colon, are not empty and have no blanks around
them. -/
def IsNormal (c : Coordinate) : Prop := ∀ f ∈ c.parts, IsPart f ∧ Text.trim f = f

theorem eq_ofParts_iff : c = ofParts c.group.toList c.artifact.toList c.version.toList ↔
    ∀ f ∈ c.parts, Text.trim f = f := by
  have hpart : ∀ s : String,
      s = String.ofList (Text.trim s.toList) ↔ Text.trim s.toList = s.toList := by
    intro s
    rw [← String.toList_inj, String.toList_ofList, eq_comm]
  rw [forall_mem_parts, ← hpart, ← hpart, ← hpart]
  cases c with
  | mk g a v => exact Coordinate.mk.injEq .. ▸ Iff.rfl

/-- **Normal coordinates** are those that are read back from their texts. -/
theorem ofString?_toText_iff : ofString? c.toText = some c ↔ c.IsNormal := by
  rw [ofString?_toText_eq_some_iff, eq_ofParts_iff]
  exact ⟨fun h f hf => ⟨h.1 f hf, h.2 f hf⟩,
    fun h => ⟨fun f hf => (h f hf).1, fun f hf => (h f hf).2⟩⟩

theorem IsPart.trim {cs : List Char} (h : IsPart cs) : IsPart (Text.trim cs) := by
  obtain ⟨s, t, hs, ht, hcs⟩ := Text.exists_blanks_around cs
  constructor
  · intro hcolon
    exact h.noColon (hcs ▸ by simp [hcolon])
  · rw [← isEmpty_trim_iff, Text.trim_trim]
    exact isEmpty_trim_iff.mpr h.notBlank

/-- **What is read is normal.** -/
theorem isNormal_of_ofString? (h : ofString? text = some c) : c.IsNormal := by
  obtain ⟨g, a, v, -, hg, ha, hv, rfl⟩ := ofString?_eq_some_iff.mp h
  have hpart : ∀ {cs}, IsPart cs →
      IsPart (Text.trim cs) ∧ Text.trim (Text.trim cs) = Text.trim cs :=
    fun h => ⟨h.trim, Text.trim_trim _⟩
  rw [IsNormal, forall_mem_parts, ofParts, String.toList_ofList, String.toList_ofList,
    String.toList_ofList]
  exact ⟨hpart hg, hpart ha, hpart hv⟩

/-- Normal coordinates can be told apart by their texts. -/
theorem IsNormal.eq_of_toText_eq (h : c.IsNormal) (h' : c'.IsNormal)
    (heq : c.toText = c'.toText) : c = c' := by
  have hread := ofString?_toText_iff.mpr h
  rw [heq, ofString?_toText_iff.mpr h'] at hread
  exact (Option.some.inj hread).symm

end SourceEdit.Coordinate
