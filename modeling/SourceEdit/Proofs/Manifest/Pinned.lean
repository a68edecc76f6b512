import SourceEdit.Proofs.Dict
import SourceEdit.Proofs.Manifest.Record
import SourceEdit.Proofs.Outcome
import SourceEdit.Proofs.Text.Fields

/-!
# Pinned coordinates

An entry of a list of coordinates may be a mapping from pairs of group and artifact to versions.
With the version of one pair left open, the coordinates of the list are the same whatever fills the
gap, except for one that has its version from there.
-/

namespace SourceEdit

/-! ## Coordinates of a pair and a version -/

namespace Coordinate

theorem fields_pair {g a : List Char} (hg : ':' ∉ g) (ha : ':' ∉ a) (s : List Char) :
    Text.fields ':' (g ++ ':' :: a ++ ':' :: s) = g :: a :: Text.fields ':' s := by
  rw [List.append_assoc, List.cons_append, Text.fields_append_sep hg, Text.fields_append_sep ha]

theorem ofString?_pair {g a s : List Char} (hg : ':' ∉ g) (ha : ':' ∉ a) (hs : ':' ∉ s)
    (hg' : Text.trim g ≠ []) (ha' : Text.trim a ≠ []) :
    ofString? (String.ofList (g ++ ':' :: a ++ ':' :: s)) = if Text.trim s = [] then none
      else some ⟨String.ofList (Text.trim g), String.ofList (Text.trim a),
        String.ofList (Text.trim s)⟩ := by
  have hparts : (Text.fields ':' (g ++ ':' :: a ++ ':' :: s)).map Text.trim =
      [Text.trim g, Text.trim a, Text.trim s] := by
    rw [fields_pair hg ha, Text.fields_of_notMem hs]
    rfl
  rw [ofString?, String.toList_ofList, hparts]
  simp only [List.isEmpty_eq_false_iff.mpr hg', List.isEmpty_eq_false_iff.mpr ha', Bool.false_or,
    List.isEmpty_iff]

/-- What is read behind a pair is no blank, and neither are the parts of the pair. -/
theorem of_ofString?_pair {g a s : List Char} (hg : ':' ∉ g) (ha : ':' ∉ a) {c : Coordinate}
    (h : ofString? (String.ofList (g ++ ':' :: a ++ ':' :: s)) = some c) :
    ':' ∉ s ∧ Text.trim g ≠ [] ∧ Text.trim a ≠ [] := by
  rw [ofString?, String.toList_ofList, fields_pair hg ha] at h
  have hjoin := Text.join_fields ':' s
  cases hf : Text.fields ':' s with
  | nil => exact absurd hf (Text.fields_ne_nil _ _)
  | cons f fs =>
      rw [hf] at h hjoin
      cases fs with
      | cons f' fs' => cases h
      | nil =>
          have hfree : ':' ∉ f := Text.not_mem_of_mem_fields (hf ▸ List.mem_singleton_self f)
          obtain rfl : f = s := hjoin
          simp only [List.map_cons, List.map_nil] at h
          split at h
          · cases h
          · next hne =>
            simp only [Bool.or_eq_true, List.isEmpty_iff, not_or] at hne
            exact ⟨hfree, hne.1.1, hne.1.2⟩

end Coordinate

namespace Manifest

open Yaml (Document Node Properties)
open Outcome

/-! ## Texts of coordinates -/

theorem coordinateTexts?_fill {d : Document} {g : MappingGap} {pair : String}
    (hkey : textOnly? d g.key = some pair) (hafter : ∀ e ∈ g.after, textOnly? d e.1 ≠ some pair)
    {w : Node} {texts : List String} (h : coordinateTexts? d (g.fill w) = some texts) :
    ∃ before after, ∀ v, coordinateTexts? d (g.fill v) =
      (value? d v).map fun s => before ++ (pair ++ ":" ++ s) :: after := by
  have hfill : ∀ v, coordinateTexts? d (g.fill v) = (do
      if g.props.tag.any (·.startsWith "!") then none
      let pairs ← (g.before ++ (g.key, v) :: g.after).mapM
        (fun e => do some (← textOnly? d e.1, ← value? d e.2))
      some ((Dict.ofList pairs).entries.map fun e => e.1 ++ ":" ++ e.2)) := fun _ => rfl
  simp only [hfill, List.mapM_append, List.mapM_cons, hkey] at h ⊢
  split at h
  · cases h
  · next htag =>
    obtain ⟨pairs, hpairs, _⟩ := Option.bind_eq_some_iff.mp h
    obtain ⟨a, ha, hpairs⟩ := Option.bind_eq_some_iff.mp hpairs
    obtain ⟨rest, hrest, _⟩ := Option.bind_eq_some_iff.mp hpairs
    obtain ⟨_, _, hrest⟩ := Option.bind_eq_some_iff.mp hrest
    obtain ⟨b, hb, _⟩ := Option.bind_eq_some_iff.mp hrest
    have hlast : ∀ e ∈ b, e.1 ≠ pair := by
      intro e he hname
      obtain ⟨e', he', heq⟩ := (of_mapM_eq_some hb).2.2 e he
      obtain ⟨k, hk, heq⟩ := Option.bind_eq_some_iff.mp heq
      obtain ⟨v, _, heq⟩ := Option.bind_eq_some_iff.mp heq
      obtain rfl : (k, v) = e := Option.some.inj heq
      exact hafter e' he' (by rw [hk]; exact congrArg some hname)
    obtain ⟨before, after, hentries⟩ := Dict.exists_entries_ofList a hlast
    refine ⟨before.map fun e => e.1 ++ ":" ++ e.2, after.map fun e => e.1 ++ ":" ++ e.2,
      fun v => ?_⟩
    rw [if_neg htag, ha, hb]
    cases hv : value? d v with
    | none => rfl
    | some s =>
        show some ((Dict.ofList (a ++ (pair, s) :: b)).entries.map fun e => e.1 ++ ":" ++ e.2) = _
        rw [hentries, List.map_append]
        rfl

theorem coordinateList?_fill {d : Document} {g : MappingGap} {pair : String}
    (hkey : textOnly? d g.key = some pair) (hafter : ∀ e ∈ g.after, textOnly? d e.1 ≠ some pair)
    {props : Properties} {items items' : List Node} {w : Node} {texts : List String}
    (h : coordinateList? d (.sequence props (items ++ g.fill w :: items')) = some texts) :
    ∃ before after, ∀ v, coordinateList? d (.sequence props (items ++ g.fill v :: items')) =
      (value? d v).map fun s => before ++ (pair ++ ":" ++ s) :: after := by
  have hfill : ∀ v, coordinateList? d (.sequence props (items ++ g.fill v :: items')) =
      ((items ++ g.fill v :: items').mapM (coordinateTexts? d)).bind
        fun texts => some texts.flatten := fun _ => rfl
  simp only [hfill, List.mapM_append, List.mapM_cons] at h ⊢
  obtain ⟨lists, hlists, _⟩ := Option.bind_eq_some_iff.mp h
  obtain ⟨a, ha, hlists⟩ := Option.bind_eq_some_iff.mp hlists
  obtain ⟨rest, hrest, _⟩ := Option.bind_eq_some_iff.mp hlists
  obtain ⟨inner, hinner, hrest⟩ := Option.bind_eq_some_iff.mp hrest
  obtain ⟨b, hb, _⟩ := Option.bind_eq_some_iff.mp hrest
  obtain ⟨before, after, htexts⟩ := coordinateTexts?_fill hkey hafter hinner
  refine ⟨a.flatten ++ before, after ++ b.flatten, fun v => ?_⟩
  rw [ha, hb, htexts]
  cases hv : value? d v with
  | none => rfl
  | some s =>
      show some (a ++ (before ++ (pair ++ ":" ++ s) :: after) :: b).flatten = _
      simp

/-! ## Lists of coordinates -/

theorem coordinates_cons_eq_ok_iff {t : String} {ts : List String} {cs : List Coordinate} :
    coordinates (t :: ts) = .ok cs ↔ ∃ c cs', Coordinate.ofString? t = some c ∧
      coordinates ts = .ok cs' ∧ cs = c :: cs' := by
  rw [coordinates, List.mapM_cons, bind_eq_ok_iff]
  constructor
  · rintro ⟨c, hc, h⟩
    obtain ⟨cs', hcs', h⟩ := bind_eq_ok_iff.mp h
    split at hc
    · next c' hc' => exact ⟨c, cs', by rw [hc', (Except.ok.inj hc)], hcs', pure_eq_ok_iff.mp h⟩
    · cases hc
  · rintro ⟨c, cs', hc, hcs', rfl⟩
    refine ⟨c, by rw [hc], ?_⟩
    exact bind_eq_ok_iff.mpr ⟨cs', hcs', rfl⟩

theorem coordinates_append_cons_eq_ok_iff {ts us : List String} {t : String}
    {cs : List Coordinate} :
    coordinates (ts ++ t :: us) = .ok cs ↔ ∃ a c b, coordinates ts = .ok a ∧
      Coordinate.ofString? t = some c ∧ coordinates us = .ok b ∧ cs = a ++ c :: b := by
  induction ts generalizing cs with
  | nil =>
      rw [List.nil_append, coordinates_cons_eq_ok_iff]
      constructor
      · rintro ⟨c, b, hc, hb, rfl⟩
        exact ⟨[], c, b, rfl, hc, hb, rfl⟩
      · rintro ⟨a, c, b, ha, hc, hb, rfl⟩
        obtain rfl : [] = a := Except.ok.inj ha
        exact ⟨c, b, hc, hb, rfl⟩
  | cons s ts ih =>
      rw [List.cons_append, coordinates_cons_eq_ok_iff]
      constructor
      · rintro ⟨x, rest, hx, hrest, rfl⟩
        obtain ⟨a, c, b, ha, hc, hb, rfl⟩ := ih.mp hrest
        exact ⟨x :: a, c, b, coordinates_cons_eq_ok_iff.mpr ⟨x, a, hx, ha, rfl⟩, hc, hb, rfl⟩
      · rintro ⟨a, c, b, ha, hc, hb, rfl⟩
        obtain ⟨x, a', hx, ha', rfl⟩ := coordinates_cons_eq_ok_iff.mp ha
        exact ⟨x, a' ++ c :: b, hx, ih.mpr ⟨a', c, b, ha', hc, hb, rfl⟩, rfl⟩

end Manifest

end SourceEdit
