import SourceEdit.Proofs.Coordinate
import SourceEdit.Proofs.Manifest.Sum

/-!
# Where a pair ends and its version begins

An entry that pins a version is a mapping from pairs of group and artifact to versions. Pair and
version are joined by a colon and the text is read as a coordinate, so a colon counts the same on
either side: a name without a colon makes an entry too, if its version has one.
-/

namespace SourceEdit

/-! ## A pair and its version -/

namespace Coordinate

variable {key version : String} {c : Coordinate}

/-- The key is a pair of group and artifact, and the version is one. -/
inductive Pins (key version : String) : Coordinate → Prop
  | intro {g a : List Char} (hkey : key.toList = g ++ ':' :: a) (hg : IsPart g) (ha : IsPart a)
      (hversion : IsPart version.toList) : Pins key version (ofParts g a version.toList)

/-- The key is a group only, and what stands for its version is a pair of artifact and version. -/
inductive Straddles (key version : String) : Coordinate → Prop
  | intro {a v : List Char} (hkey : IsPart key.toList) (hversion : version.toList = a ++ ':' :: v)
      (ha : IsPart a) (hv : IsPart v) : Straddles key version (ofParts key.toList a v)

theorem fields_joined (key version : String) : Text.fields ':' (key ++ ":" ++ version).toList =
    Text.fields ':' key.toList ++ Text.fields ':' version.toList := by
  rw [← Text.fields_append_sep_append]
  simp

theorem Pins.ofString?_joined (h : Pins key version c) :
    ofString? (key ++ ":" ++ version) = some c := by
  cases h with
  | @intro g a hkey hg ha hversion =>
      refine ofString?_eq_some_iff.mpr ⟨g, a, version.toList, ?_, hg, ha, hversion, rfl⟩
      rw [fields_joined, hkey, Text.fields_append_sep hg.noColon, Text.fields_of_notMem ha.noColon,
        Text.fields_of_notMem hversion.noColon]
      rfl

theorem Straddles.ofString?_joined (h : Straddles key version c) :
    ofString? (key ++ ":" ++ version) = some c := by
  cases h with
  | @intro a v hkey hversion ha hv =>
      refine ofString?_eq_some_iff.mpr ⟨key.toList, a, v, ?_, hkey, ha, hv, rfl⟩
      rw [fields_joined, hversion, Text.fields_of_notMem hkey.noColon,
        Text.fields_append_sep ha.noColon, Text.fields_of_notMem hv.noColon]
      rfl

/-- **The joined text** is a coordinate in these two ways only. -/
theorem ofString?_joined_iff : ofString? (key ++ ":" ++ version) = some c ↔
    Pins key version c ∨ Straddles key version c := by
  constructor
  · intro h
    obtain ⟨g, a, v, hf, hg, ha, hv, rfl⟩ := ofString?_eq_some_iff.mp h
    rw [fields_joined] at hf
    -- each side has a field at least, so one of them has two
    rcases List.append_eq_cons_iff.mp hf with ⟨hnone, -⟩ | ⟨rest, hkey, hrest⟩
    · exact absurd hnone (Text.fields_ne_nil _ _)
    rcases List.append_eq_cons_iff.mp hrest.symm with ⟨rfl, hversion⟩ | ⟨rest', rfl, hrest'⟩
    · right
      obtain ⟨hkey, -⟩ := (Text.fields_eq_iff (by simp)).mp hkey
      obtain ⟨hversion, -⟩ := (Text.fields_eq_iff (by simp)).mp hversion
      obtain rfl : key.toList = g := hkey
      exact .intro hg hversion ha hv
    · left
      rcases List.append_eq_cons_iff.mp hrest'.symm with ⟨rfl, hversion⟩ | ⟨rest, rfl, hnone⟩
      · obtain ⟨hkey, -⟩ := (Text.fields_eq_iff (by simp)).mp hkey
        obtain ⟨hversion, -⟩ := (Text.fields_eq_iff (by simp)).mp hversion
        obtain rfl : version.toList = v := hversion
        exact .intro hkey hg ha hv
      · exact absurd (List.append_eq_nil_iff.mp hnone.symm).2 (Text.fields_ne_nil _ _)
  · rintro (h | h)
    · exact h.ofString?_joined
    · exact h.ofString?_joined

/-- The two ways exclude each other, since the colon is either in the key or not. -/
theorem Straddles.not_pins (h : Straddles key version c) (c' : Coordinate) :
    ¬ Pins key version c' := by
  intro hpins
  cases h with
  | intro hkey =>
      cases hpins with
      | intro hpair =>
          apply hkey.noColon
          rw [hpair]
          simp

end Coordinate

/-! ## Whole entries -/

open Coordinate (Pins Straddles ofString?_joined_iff)

namespace Manifest

variable {cs : List Coordinate} {e : ManifestError}

theorem coordinates_joined_eq_ok_iff {pins : List (String × String)} :
    coordinates (pins.map fun e => e.1 ++ ":" ++ e.2) = .ok cs ↔
      List.Forall₂ (fun e c => Pins e.1 e.2 c ∨ Straddles e.1 e.2 c) pins cs := by
  induction pins generalizing cs with
  | nil =>
      rw [List.map_nil, List.forall₂_nil_left_iff]
      constructor
      · intro h
        exact (Except.ok.inj h).symm
      · rintro rfl
        rfl
  | cons e pins ih =>
      simp only [List.map_cons, coordinates_cons_eq_ok_iff, ofString?_joined_iff, ih]
      rw [List.forall₂_cons_left_iff]

theorem coordinates_eq_error_iff {texts : List String} : coordinates texts = .error e ↔
    ∃ t, texts.find? isNoCoordinate = some t ∧ e = .invalidCoordinate t := by
  cases hfind : texts.find? isNoCoordinate with
  | none =>
      rw [(coordinates_of_good hfind).1]
      simp
  | some t =>
      rw [coordinates_of_bad hfind]
      simp [eq_comm]

theorem isNoCoordinate_joined_iff {k v : String} :
    isNoCoordinate (k ++ ":" ++ v) = true ↔ ∀ c, ¬ Pins k v c ∧ ¬ Straddles k v c := by
  simp only [isNoCoordinate, Option.isNone_iff_eq_none, Option.eq_none_iff_forall_ne_some, ne_eq,
    ofString?_joined_iff, not_or]

/-- The first pair with its version that makes no coordinate is reported. -/
theorem coordinates_joined_eq_error_iff {pins : List (String × String)} :
    coordinates (pins.map fun e => e.1 ++ ":" ++ e.2) = .error e ↔ ∃ before k v after,
      pins = before ++ (k, v) :: after ∧
        (∀ b ∈ before, ∃ c, Pins b.1 b.2 c ∨ Straddles b.1 b.2 c) ∧
        (∀ c, ¬ Pins k v c ∧ ¬ Straddles k v c) ∧ e = .invalidCoordinate (k ++ ":" ++ v) := by
  have hreads : ∀ b : String × String, isNoCoordinate (b.1 ++ ":" ++ b.2) = false ↔
      ∃ c, Pins b.1 b.2 c ∨ Straddles b.1 b.2 c := by
    intro b
    rw [← Bool.not_eq_true, isNoCoordinate_joined_iff]
    simp only [not_forall, ← not_or, not_not]
  rw [coordinates_eq_error_iff]
  simp only [List.find?_map, Option.map_eq_some_iff, List.find?_eq_some_iff_append,
    Function.comp_apply, Bool.not_eq_true', hreads, isNoCoordinate_joined_iff]
  constructor
  · rintro ⟨-, ⟨⟨k, v⟩, ⟨hbad, before, after, hpins, hbefore⟩, rfl⟩, he⟩
    exact ⟨before, k, v, after, hpins, hbefore, hbad, he⟩
  · rintro ⟨before, k, v, after, hpins, hbefore, hbad, he⟩
    exact ⟨_, ⟨(k, v), ⟨hbad, before, after, hpins, hbefore⟩, rfl⟩, he⟩

/-- **A pair and its version are read as one text.** An entry of the mapping is accepted if its key
is a pair of group and artifact and its version is one, and then these are its coordinate; but also
if its key is a group only and its version has a colon, and then the artifact is what stands before
that colon. No entry is accepted in both ways. The first entry that is not accepted, in the order of
the keys, is the error of the mapping. So a key means group and artifact just if its entry is not of
the second kind; in a mapping without such an entry, each key is a pair and each version only a
version. -/
theorem pinned_read_as_joined (versions : Dict String) :
    (∀ d n, entryOf? d n = some (.pinned versions) →
      coordinateTexts? d n = some (Entry.pinned versions).texts) ∧
    (∀ cs, coordinates (Entry.pinned versions).texts = .ok cs ↔
      List.Forall₂ (fun e c => Pins e.1 e.2 c ∨ Straddles e.1 e.2 c) versions.entries cs) ∧
    (∀ e, coordinates (Entry.pinned versions).texts = .error e ↔ ∃ before k v after,
      versions.entries = before ++ (k, v) :: after ∧
        (∀ b ∈ before, ∃ c, Pins b.1 b.2 c ∨ Straddles b.1 b.2 c) ∧
        (∀ c, ¬ Pins k v c ∧ ¬ Straddles k v c) ∧ e = .invalidCoordinate (k ++ ":" ++ v)) ∧
    (∀ e ∈ versions.entries,
      (∀ c c', Pins e.1 e.2 c → ¬ Straddles e.1 e.2 c') ∧
      ((∀ c, Coordinate.ofString? (e.1 ++ ":" ++ e.2) = some c ↔ Pins e.1 e.2 c) ↔
        ∀ c, ¬ Straddles e.1 e.2 c)) ∧
    ((∀ e ∈ versions.entries, ∀ c, ¬ Straddles e.1 e.2 c) → ∀ cs,
      coordinates (Entry.pinned versions).texts = .ok cs ↔
        List.Forall₂ (fun e c => Pins e.1 e.2 c) versions.entries cs) := by
  refine ⟨?_, fun _ => coordinates_joined_eq_ok_iff, fun _ => coordinates_joined_eq_error_iff,
    ?_, ?_⟩
  · intro d n hentry
    rw [coordinateTexts?_eq, hentry]
    rfl
  · rintro ⟨k, v⟩ -
    refine ⟨fun c c' hpins hstraddles => hstraddles.not_pins c hpins, ?_⟩
    simp only [ofString?_joined_iff]
    constructor
    · intro h c hstraddles
      exact hstraddles.not_pins c ((h c).mp (Or.inr hstraddles))
    · intro hnone c
      exact or_iff_left (hnone c)
  · intro hnone cs
    have hreads : ∀ e c, (e, c) ∈ versions.entries.zip cs →
        (Pins e.1 e.2 c ∨ Straddles e.1 e.2 c ↔ Pins e.1 e.2 c) := by
      intro e c hmem
      exact or_iff_left (hnone e (List.of_mem_zip hmem).1 c)
    apply coordinates_joined_eq_ok_iff.trans
    rw [List.forall₂_iff_zip, List.forall₂_iff_zip]
    apply and_congr_right
    intro hlength
    exact ⟨fun h e c hmem => (hreads e c hmem).mp (h hmem),
      fun h e c hmem => (hreads e c hmem).mpr (h hmem)⟩

/-- An entry is accepted with an artifact that its key does not name. -/
theorem version_text_names_artifact :
    ofText "dependencies:\n  - g: 'a:1'" = .ok { dependencies := [⟨"g", "a", "1"⟩] } ∧
      ∀ c, ¬ Pins "g" "a:1" c := by
  have hstraddles : Straddles "g" "a:1" ⟨"g", "a", "1"⟩ :=
    .intro (a := ['a']) (v := ['1']) ⟨by decide, 'g', by decide⟩ rfl ⟨by decide, 'a', by decide⟩
      ⟨by decide, '1', by decide⟩
  refine ⟨by decide +kernel, ?_⟩
  intro c hpins
  have hentry := (pinned_read_as_joined (Dict.ofList [("g", "a:1")])).2.2.2.1 ("g", "a:1")
    (List.mem_singleton_self _)
  exact hentry.1 c _ hpins hstraddles

end Manifest

end SourceEdit
