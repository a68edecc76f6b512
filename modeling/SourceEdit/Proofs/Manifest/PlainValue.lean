import SourceEdit.Proofs.Manifest.Pinned
import SourceEdit.Proofs.Yaml.Graphic

/-!
# Plain scalars in manifests

A plain scalar in the place of a name or a version is kept by the manifest exactly if it is
canonical; other spellings of a number or a truth value are replaced by the one in which the value
is shown. In the version of a pinned coordinate, blanks at the ends are lost as well.
-/

namespace SourceEdit

open Yaml (Document Node IsCanonical AreGraphic)
open Outcome

def Yaml.Document.rooted (d : Document) (n : Node) : Document := { d with root := some n }

namespace Manifest

/-! ## Values -/

def quoted (x : String) : Node := .scalar {} .doubleQuoted x

/-- Whether a node stands for a plain scalar without a tag that is not null. -/
structure IsPlain (d : Document) (v : Node) (t : String) : Prop where
  node : ∃ props, props.tag = none ∧ d.deref v = .scalar props .plain t
  notNull : Yaml.meaning t ≠ .null

theorem IsPlain.value?_eq {d : Document} {v : Node} {t : String} (h : IsPlain d v t) :
    value? d v = shown? t (Yaml.meaning t) := by
  obtain ⟨props, htag, hnode⟩ := h.node
  simp only [value?, hnode, htag]
  rfl

theorem toList_ne_nil_of_notNull {t : String} (h : Yaml.meaning t ≠ .null) :
    t.toList ≠ [] ∧ Yaml.isNull t = false := by
  have hnot : (t.toList.isEmpty || Yaml.isNull t) = false := by
    refine Bool.eq_false_iff.mpr fun hblank => h ?_
    rw [Yaml.meaning]
    exact if_pos hblank
  rw [Bool.or_eq_false_iff, List.isEmpty_eq_false_iff] at hnot
  exact hnot

theorem IsPlain.isAbsent?_eq {d : Document} {v : Node} {t : String} (h : IsPlain d v t) :
    isAbsent? d v = some false := by
  obtain ⟨props, htag, hnode⟩ := h.node
  obtain ⟨hne, hnull⟩ := toList_ne_nil_of_notNull h.notNull
  have hempty : t.isEmpty = false := by
    refine Bool.eq_false_iff.mpr fun he => hne ?_
    rw [String.isEmpty_iff.mp he]
    rfl
  simp only [isAbsent?, hnode, htag, hempty, hnull]
  rfl

theorem withoutSpaces_eq_self {s : String} (h : AreGraphic s.toList) : withoutSpaces s = s := by
  have hkeep : s.toList.filter (· != ' ') = s.toList := by
    refine List.filter_eq_self.mpr fun c hc => ?_
    have hne : c ≠ ' ' := by
      rintro rfl
      exact absurd (h ' ' hc) (by decide)
    simpa using hne
  rw [withoutSpaces, hkeep, String.ofList_toList]

/-! ## Adding a document -/

def ofDocuments (ds : List (Option Document)) : Except ManifestError Manifest :=
  ds.foldlM addDocument {}

theorem ofDocuments_concat (ds : List (Option Document)) (d : Option Document) :
    ofDocuments (ds ++ [d]) = ofDocuments ds >>= fun m => m.addDocument d := by
  simp only [ofDocuments, List.foldlM_append, List.foldlM_cons, List.foldlM_nil, bind_pure]

theorem ofText_concat {text : String} {ds : List (Option Document)} {d : Option Document}
    {m : Manifest} (htext : Yaml.documents text.toList = ds ++ [d]) (hds : ofDocuments ds = .ok m) :
    ofText text = m.addDocument d := by
  have hfold : ofText text = ofDocuments (ds ++ [d]) := congrArg ofDocuments htext
  rw [hfold, ofDocuments_concat, hds]
  rfl

theorem partOf?_fill (d : Document) (g : MappingGap) (v : Node) :
    partOf? (d.rooted (g.fill v)) = (part? d (g.fill v)).map some := rfl

theorem addDocument_fill (m : Manifest) (d : Document) (g : MappingGap) (v : Node) :
    m.addDocument (some (d.rooted (g.fill v))) =
      match part? d (g.fill v) with
      | none => .error .malformed
      | some p => m.addPart p := by
  rw [addDocument, partOf?_fill]
  cases part? d (g.fill v) <;> rfl

theorem addPart_eq_ok_iff {m m' : Manifest} {p : Part} : m.addPart p = .ok m' ↔
    ∃ ds es, coordinates p.dependencies = .ok ds ∧ coordinates p.extensions = .ok es ∧
      m' = {
        group := p.group.getD m.group
        artifact := p.artifact.getD m.artifact
        version := p.version <|> m.version
        requires := p.requires.map withoutSpaces <|> m.requires
        dependencies := m.dependencies ++ ds
        extensions := m.extensions ++ es
        repositories := m.repositories ++ p.repositories
        excludes := m.excludes.append p.excludes
        provenance := p.provenance <|> m.provenance } := by
  constructor
  · intro h
    obtain ⟨ds, hds, h⟩ := bind_eq_ok_iff.mp h
    obtain ⟨es, hes, h⟩ := bind_eq_ok_iff.mp h
    exact ⟨ds, es, hds, hes, pure_eq_ok_iff.mp h⟩
  · rintro ⟨ds, es, hds, hes, rfl⟩
    exact bind_eq_ok_iff.mpr ⟨ds, hds, bind_eq_ok_iff.mpr ⟨es, hes, rfl⟩⟩

/-! ## Single values -/

namespace TextKey

def put (m : Manifest) (s : String) : TextKey → Manifest
  | .group => { m with group := s }
  | .artifact => { m with artifact := s }
  | .version => { m with version := some s }
  | .requires => { m with requires := some (withoutSpaces s) }
  | .repo => { m with provenance := m.provenance.map fun o => { o with repo := s } }
  | .branch => { m with provenance := m.provenance.map fun o => { o with branch := s } }
  | .sha => { m with provenance := m.provenance.map fun o => { o with sha := s } }

/-- Whether a part says enough for its value under a name to reach the manifest. -/
def IsComplete (p : Part) : TextKey → Prop
  | .repo | .branch | .sha => p.provenance.isSome = true
  | _ => True

theorem addPart_set {m m' : Manifest} {p : Part} {key : TextKey} (hp : key.IsComplete p)
    (h : m.addPart p = .ok m') (s : String) : m.addPart (key.set p s) = .ok (key.put m' s) := by
  obtain ⟨ds, es, hds, hes, rfl⟩ := addPart_eq_ok_iff.mp h
  have horigin : p.provenance.isSome = true → ∃ r b c, p.repo = some r ∧ p.branch = some b ∧
      p.sha = some c := by
    intro hsome
    obtain ⟨o, ho⟩ := Option.isSome_iff_exists.mp hsome
    obtain ⟨r, hr, ho⟩ := Option.bind_eq_some_iff.mp ho
    obtain ⟨b, hb, ho⟩ := Option.bind_eq_some_iff.mp ho
    obtain ⟨c, hc, _⟩ := Option.bind_eq_some_iff.mp ho
    exact ⟨r, b, c, hr, hb, hc⟩
  refine addPart_eq_ok_iff.mpr ⟨ds, es, ?_, ?_, ?_⟩
  · rw [← hds]
    cases key <;> rfl
  · rw [← hes]
    cases key <;> rfl
  · cases key with
    | group => rfl
    | artifact => rfl
    | version => rfl
    | requires => rfl
    | repo =>
        obtain ⟨r, b, c, hr, hb, hc⟩ := horigin hp
        simp [set, put, Part.provenance, hr, hb, hc]
    | branch =>
        obtain ⟨r, b, c, hr, hb, hc⟩ := horigin hp
        simp [set, put, Part.provenance, hr, hb, hc]
    | sha =>
        obtain ⟨r, b, c, hr, hb, hc⟩ := horigin hp
        simp [set, put, Part.provenance, hr, hb, hc]

theorem provenance_isSome {m m' : Manifest} {p : Part} (hp : p.provenance.isSome = true)
    (h : m.addPart p = .ok m') : ∃ o, m'.provenance = some o := by
  obtain ⟨ds, es, _, _, rfl⟩ := addPart_eq_ok_iff.mp h
  obtain ⟨o, ho⟩ := Option.isSome_iff_exists.mp hp
  exact ⟨o, by simp [ho]⟩

theorem put_inj {m m' : Manifest} {p : Part} {key : TextKey} (hp : key.IsComplete p)
    (h : m.addPart p = .ok m') {s t : String} (hs : withoutSpaces s = s)
    (ht : withoutSpaces t = t) (heq : key.put m' s = key.put m' t) : s = t := by
  cases key with
  | group => exact congrArg Manifest.group heq
  | artifact => exact congrArg Manifest.artifact heq
  | version => exact Option.some.inj (congrArg Manifest.version heq)
  | requires =>
      have hkept := Option.some.inj (congrArg Manifest.requires heq)
      rwa [hs, ht] at hkept
  | repo =>
      obtain ⟨o, ho⟩ := provenance_isSome hp h
      have horigin := congrArg Manifest.provenance heq
      simp only [put, ho, Option.map_some, Option.some.injEq] at horigin
      exact congrArg Provenance.repo horigin
  | branch =>
      obtain ⟨o, ho⟩ := provenance_isSome hp h
      have horigin := congrArg Manifest.provenance heq
      simp only [put, ho, Option.map_some, Option.some.injEq] at horigin
      exact congrArg Provenance.branch horigin
  | sha =>
      obtain ⟨o, ho⟩ := provenance_isSome hp h
      have horigin := congrArg Manifest.provenance heq
      simp only [put, ho, Option.map_some, Option.some.injEq] at horigin
      exact congrArg Provenance.sha horigin

end TextKey

/-- A plain scalar under a name reaches the manifest as what it is shown as. -/
theorem addDocument_fill_plain {m m' : Manifest} {d : Document} {g : MappingGap} {key : TextKey}
    (hkey : text? d g.key = some key.name) {w : Node} {p : Part}
    (hread : part? d (g.fill w) = some p) (hp : key.IsComplete p) (hadd : m.addPart p = .ok m')
    {v : Node} {t : String} (hv : IsPlain d v t) :
    m.addDocument (some (d.rooted (g.fill v))) = .ok (key.put m' t) ↔ IsCanonical t := by
  rw [addDocument_fill, part?_fill_text hkey hread hv.isAbsent?_eq, hv.value?_eq,
    ← Yaml.shown?_eq_self_iff]
  cases hs : shown? t (Yaml.meaning t) with
  | none =>
      constructor <;> intro h <;> cases h
  | some s =>
      show m.addPart (key.set p s) = .ok (key.put m' t) ↔ some s = some t
      rw [TextKey.addPart_set hp hadd, Except.ok.injEq, Option.some.injEq]
      constructor
      · intro heq
        by_cases htext : Yaml.meaning t = .text
        · rw [htext] at hs
          exact (Option.some.inj hs).symm
        · exact TextKey.put_inj hp hadd (withoutSpaces_eq_self (Yaml.areGraphic_of_shown? htext hs))
            (withoutSpaces_eq_self (Yaml.areGraphic_of_meaning hv.notNull htext)) heq
      · rintro rfl
        rfl

/-- **Single values.** If a manifest is read with some text in quotes under the name of a single
value at the end, then with a plain scalar there it is read as the same manifest with that scalar
exactly if the scalar is canonical. -/
theorem ofText_value_iff {earlier : List (Option Document)} {d : Document} {g : MappingGap}
    {key : TextKey} (hkey : text? d g.key = some key.name) {x : String} {p : Part}
    (hread : partOf? (d.rooted (g.fill (quoted x))) = some (some p)) (hp : key.IsComplete p)
    {m : Manifest} (hm : ofDocuments (earlier ++ [some (d.rooted (g.fill (quoted x)))]) = .ok m)
    {text t : String} {v : Node}
    (htext : Yaml.documents text.toList = earlier ++ [some (d.rooted (g.fill v))])
    (hv : IsPlain d v t) : ofText text = .ok (key.put m t) ↔ IsCanonical t := by
  rw [partOf?_fill] at hread
  obtain ⟨p', hpart, hp'⟩ := Option.map_eq_some_iff.mp hread
  obtain rfl := Option.some.inj hp'
  rw [ofDocuments_concat] at hm
  obtain ⟨m₁, hearlier, hadd⟩ := bind_eq_ok_iff.mp hm
  rw [addDocument_fill, hpart] at hadd
  rw [ofText_concat htext hearlier]
  exact addDocument_fill_plain hkey hpart hp hadd hv

/-! ## Pinned versions -/

namespace ListKey

def coordinates (m : Manifest) : ListKey → List Coordinate
  | .dependencies => m.dependencies
  | .extensions => m.extensions

def replace (m : Manifest) (cs : List Coordinate) : ListKey → Manifest
  | .dependencies => { m with dependencies := cs }
  | .extensions => { m with extensions := cs }

def putVersion (m : Manifest) (i : Nat) (s : String) (list : ListKey) : Manifest :=
  list.replace m ((list.coordinates m).modify i fun c => { c with version := s })

theorem replace_inj {m : Manifest} {list : ListKey} {cs ds : List Coordinate}
    (h : list.replace m cs = list.replace m ds) : cs = ds := by
  cases list with
  | dependencies => exact congrArg Manifest.dependencies h
  | extensions => exact congrArg Manifest.extensions h

theorem addPart_set_eq_ok_iff (list : ListKey) {m m' : Manifest} {p : Part}
    (h : m.addPart p = .ok m') :
    ∃ cs, Manifest.coordinates (list.get p) = .ok cs ∧
      list.coordinates m' = list.coordinates m ++ cs ∧
      ∀ texts m'', m.addPart (list.set p texts) = .ok m'' ↔
        ∃ cs', Manifest.coordinates texts = .ok cs' ∧
          m'' = list.replace m' (list.coordinates m ++ cs') := by
  obtain ⟨ds, es, hds, hes, rfl⟩ := addPart_eq_ok_iff.mp h
  cases list with
  | dependencies =>
      refine ⟨ds, hds, rfl, fun texts m'' => ?_⟩
      rw [addPart_eq_ok_iff]
      constructor
      · rintro ⟨ds', es', hds', hes', rfl⟩
        obtain rfl := Except.ok.inj (hes.symm.trans hes')
        exact ⟨ds', hds', rfl⟩
      · rintro ⟨ds', hds', rfl⟩
        exact ⟨ds', es, hds', hes, rfl⟩
  | extensions =>
      refine ⟨es, hes, rfl, fun texts m'' => ?_⟩
      rw [addPart_eq_ok_iff]
      constructor
      · rintro ⟨ds', es', hds', hes', rfl⟩
        obtain rfl := Except.ok.inj (hds.symm.trans hds')
        exact ⟨es', hes', rfl⟩
      · rintro ⟨es', hes', rfl⟩
        exact ⟨ds, es', hds, hes', rfl⟩

end ListKey

theorem modify_length_append {α : Type} (a : List α) (c : α) (b : List α) (f : α → α) :
    (a ++ c :: b).modify a.length f = a ++ f c :: b := by
  induction a with
  | nil => rfl
  | cons x a ih => exact congrArg (x :: ·) ih

/-- A plain scalar without colons is the version behind a pair exactly if it is canonical and has no
blanks at its ends. -/
theorem ofString?_plain_iff {g a : List Char} (hg : ':' ∉ g) (ha : ':' ∉ a)
    (hg' : Text.trim g ≠ []) (ha' : Text.trim a ≠ []) {t s : String}
    (hnull : Yaml.meaning t ≠ .null) (hcolon : ':' ∉ t.toList)
    (hs : shown? t (Yaml.meaning t) = some s) :
    Coordinate.ofString? (String.ofList (g ++ ':' :: a ++ ':' :: s.toList)) =
        some ⟨String.ofList (Text.trim g), String.ofList (Text.trim a), t⟩ ↔
      IsCanonical t ∧ Text.trim t.toList = t.toList := by
  obtain ⟨hne, _⟩ := toList_ne_nil_of_notNull hnull
  have hversion : ∀ u : String, ':' ∉ u.toList →
      (Coordinate.ofString? (String.ofList (g ++ ':' :: a ++ ':' :: u.toList)) =
          some ⟨String.ofList (Text.trim g), String.ofList (Text.trim a), t⟩ ↔
        Text.trim u.toList = t.toList) := by
    intro u hu
    rw [Coordinate.ofString?_pair hg ha hu hg' ha']
    constructor
    · intro h
      split at h
      · cases h
      · rw [← (Coordinate.mk.inj (Option.some.inj h)).2.2, String.toList_ofList]
    · intro h
      rw [h, if_neg hne, String.ofList_toList]
  rw [← Yaml.shown?_eq_self_iff, hs, Option.some.injEq]
  by_cases htext : Yaml.meaning t = .text
  · rw [htext] at hs
    obtain rfl := Option.some.inj hs
    rw [hversion t hcolon, and_iff_right rfl]
  · have hsgraphic := Yaml.areGraphic_of_shown? htext hs
    have htgraphic := Yaml.areGraphic_of_meaning hnull htext
    have hfree : ':' ∉ s.toList := fun hm => (hsgraphic ':' hm).2.2 rfl
    rw [hversion s hfree, Text.trim_eq_self fun c hc => (hsgraphic c hc).not_isBlank,
      and_iff_left (Text.trim_eq_self fun c hc => (htgraphic c hc).not_isBlank)]
    exact ⟨fun h => String.toList_inj.mp h, fun h => h ▸ rfl⟩

theorem Coordinate.eq_of_ofString?_pair {g a : List Char} (hg : ':' ∉ g) (ha : ':' ∉ a)
    {x : String} {c : Coordinate}
    (hc : Coordinate.ofString? (String.ofList (g ++ ':' :: a ++ ':' :: x.toList)) = some c) :
    c = ⟨String.ofList (Text.trim g), String.ofList (Text.trim a),
      String.ofList (Text.trim x.toList)⟩ := by
  obtain ⟨hx, hg', ha'⟩ := Coordinate.of_ofString?_pair hg ha hc
  rw [Coordinate.ofString?_pair hg ha hx hg' ha'] at hc
  split at hc
  · cases hc
  · exact (Option.some.inj hc).symm

/-- One text of a list replaced by another with the same pair: the manifest is the one with the new
version exactly if that version is shown as it stands. -/
theorem addPart_pinned_iff {m m' : Manifest} {p : Part} {list : ListKey} {g a : List Char}
    (hg : ':' ∉ g) (ha : ':' ∉ a) {before after : List String} {x : String}
    (hget : list.get p = before ++ String.ofList (g ++ ':' :: a ++ ':' :: x.toList) :: after)
    (hadd : m.addPart p = .ok m') :
    ∃ i, (list.coordinates m')[i]? = some ⟨String.ofList (Text.trim g), String.ofList (Text.trim a),
        String.ofList (Text.trim x.toList)⟩ ∧
      ∀ t s : String, Yaml.meaning t ≠ .null → ':' ∉ t.toList →
        shown? t (Yaml.meaning t) = some s →
        (m.addPart (list.set p
            (before ++ String.ofList (g ++ ':' :: a ++ ':' :: s.toList) :: after)) =
              .ok (list.putVersion m' i t) ↔
          IsCanonical t ∧ Text.trim t.toList = t.toList) := by
  obtain ⟨cs, hcs, hold, hother⟩ := ListKey.addPart_set_eq_ok_iff list hadd
  rw [hget] at hcs
  obtain ⟨C, c, D, hC, hc, hD, rfl⟩ := coordinates_append_cons_eq_ok_iff.mp hcs
  obtain ⟨-, hg', ha'⟩ := Coordinate.of_ofString?_pair hg ha hc
  obtain rfl := Coordinate.eq_of_ofString?_pair hg ha hc
  rw [← List.append_assoc] at hold
  refine ⟨(list.coordinates m ++ C).length, by rw [hold]; simp, fun t s hnull hcolon hs => ?_⟩
  rw [← ofString?_plain_iff hg ha hg' ha' hnull hcolon hs, hother, ListKey.putVersion, hold,
    modify_length_append]
  constructor
  · rintro ⟨cs', hcs', heq⟩
    obtain ⟨C', c', D', hC', hc', hD', rfl⟩ := coordinates_append_cons_eq_ok_iff.mp hcs'
    obtain rfl := Except.ok.inj (hC.symm.trans hC')
    have hlists := ListKey.replace_inj heq
    rw [← List.append_assoc, List.append_cancel_left_eq] at hlists
    rw [hc', ← (List.cons.inj hlists).1]
  · intro hc'
    refine ⟨_, coordinates_append_cons_eq_ok_iff.mpr ⟨C, _, D, hC, hc', hD, rfl⟩, ?_⟩
    rw [← List.append_assoc]

/-- **Pinned versions.** If a manifest is read with some version in quotes behind a pair of group
and artifact, one coordinate of it has that version; with a plain scalar there it is read as the
same manifest with that scalar as the version exactly if the scalar is canonical and has no blanks
at its ends. -/
theorem ofText_pinned_iff {earlier : List (Option Document)} {d : Document}
    {outer inner : MappingGap} {list : ListKey} (hlist : text? d outer.key = some list.name)
    {pair : String} (hpair : textOnly? d inner.key = some pair)
    (hlast : ∀ e ∈ inner.after, textOnly? d e.1 ≠ some pair) {g a : List Char}
    (hsplit : pair.toList = g ++ ':' :: a) (hg : ':' ∉ g) (ha : ':' ∉ a)
    {props : Yaml.Properties} {items items' : List Node} {x : String} {m : Manifest}
    (hm : ofDocuments (earlier ++ [some (d.rooted (outer.fill
      (.sequence props (items ++ inner.fill (quoted x) :: items'))))]) = .ok m) :
    ∃ i, (list.coordinates m)[i]? = some ⟨String.ofList (Text.trim g), String.ofList (Text.trim a),
        String.ofList (Text.trim x.toList)⟩ ∧
      ∀ (text t : String) (v : Node), Yaml.documents text.toList = earlier ++ [some (d.rooted
          (outer.fill (.sequence props (items ++ inner.fill v :: items'))))] →
        IsPlain d v t → ':' ∉ t.toList →
        (ofText text = .ok (list.putVersion m i t) ↔
          IsCanonical t ∧ Text.trim t.toList = t.toList) := by
  rw [ofDocuments_concat] at hm
  obtain ⟨m₁, hearlier, hadd⟩ := bind_eq_ok_iff.mp hm
  rw [addDocument_fill] at hadd
  cases hpart :
      part? d (outer.fill (.sequence props (items ++ inner.fill (quoted x) :: items'))) with
  | none => rw [hpart] at hadd; cases hadd
  | some p =>
      rw [hpart] at hadd
      replace hadd : m₁.addPart p = .ok m := hadd
      have hfill : ∀ v, part? d (outer.fill (.sequence props (items ++ inner.fill v :: items'))) =
          (coordinateList? d (.sequence props (items ++ inner.fill v :: items'))).map
            (list.set p) := fun v => part?_fill_list hlist hpart rfl
      obtain ⟨texts, htexts, hset⟩ :=
        Option.map_eq_some_iff.mp ((hfill (quoted x)).symm.trans hpart)
      obtain ⟨before, after, hvalue⟩ := coordinateList?_fill hpair hlast htexts
      have hpairText : ∀ s : String, pair ++ ":" ++ s =
          String.ofList (g ++ ':' :: a ++ ':' :: s.toList) := by
        intro s
        rw [← String.toList_inj, String.toList_ofList, String.toList_append, String.toList_append,
          hsplit]
        simp
      have hget : list.get p = before ++ (pair ++ ":" ++ x) :: after := by
        rw [hvalue] at htexts
        rw [← hset, ListKey.get_set]
        exact (Option.some.inj htexts).symm
      rw [hpairText] at hget
      obtain ⟨i, hi, hplain⟩ := addPart_pinned_iff hg ha hget hadd
      refine ⟨i, hi, fun text t v htext hv hcolon => ?_⟩
      rw [ofText_concat htext hearlier, addDocument_fill, hfill v, hvalue, hv.value?_eq]
      cases hs : shown? t (Yaml.meaning t) with
      | none =>
          -- what cannot be shown is refused, and is not canonical either
          rw [← Yaml.shown?_eq_self_iff, hs]
          constructor
          · intro h
            cases h
          · rintro ⟨h, _⟩
            cases h
      | some s =>
          rw [← hplain t s hv.notNull hcolon hs, ← hpairText]
          rfl

/-- **Plain scalars are kept exactly if they are canonical**, as single values and as the versions
of pinned coordinates; there, they must have no blanks at their ends either. Where a manifest is
read with some text in quotes, it is read with a plain scalar in its place as the same manifest with
that scalar if and only if this holds. -/
theorem plain_scalar_kept_iff (earlier : List (Option Document)) (d : Document) (m : Manifest) :
    (∀ (g : MappingGap) (key : TextKey) (x : String) (p : Part), text? d g.key = some key.name →
      partOf? (d.rooted (g.fill (quoted x))) = some (some p) → key.IsComplete p →
      ofDocuments (earlier ++ [some (d.rooted (g.fill (quoted x)))]) = .ok m →
      ∀ (text t : String) (v : Node),
        Yaml.documents text.toList = earlier ++ [some (d.rooted (g.fill v))] → IsPlain d v t →
        (ofText text = .ok (key.put m t) ↔ IsCanonical t)) ∧
    ∀ (outer inner : MappingGap) (list : ListKey) (pair x : String) (g a : List Char)
      (props : Yaml.Properties) (items items' : List Node), text? d outer.key = some list.name →
      textOnly? d inner.key = some pair → pair.toList = g ++ ':' :: a → ':' ∉ g → ':' ∉ a →
      (∀ e ∈ inner.after, textOnly? d e.1 ≠ some pair) →
      ofDocuments (earlier ++ [some (d.rooted (outer.fill
        (.sequence props (items ++ inner.fill (quoted x) :: items'))))]) = .ok m →
      ∃ i, (list.coordinates m)[i]? = some ⟨String.ofList (Text.trim g),
          String.ofList (Text.trim a), String.ofList (Text.trim x.toList)⟩ ∧
        ∀ (text t : String) (v : Node), Yaml.documents text.toList = earlier ++ [some (d.rooted
            (outer.fill (.sequence props (items ++ inner.fill v :: items'))))] →
          IsPlain d v t → ':' ∉ t.toList →
          (ofText text = .ok (list.putVersion m i t) ↔
            IsCanonical t ∧ Text.trim t.toList = t.toList) := by
  constructor
  · intro g key x p hkey hread hp hm text t v htext hv
    exact ofText_value_iff hkey hread hp hm htext hv
  · intro outer inner list pair x g a props items items' hlist hpair hsplit hg ha hlast hm
    exact ofText_pinned_iff hlist hpair hlast hsplit hg ha hm

theorem version_1_10_is_lost :
    ofText "version: 1.10" ≠ .ok { version := some "1.10" } ∧
      ofText "dependencies:\n- g:a: 1.10" ≠ .ok { dependencies := [⟨"g", "a", "1.10"⟩] } := by
  have hcanonical : ¬ IsCanonical "1.10" := by
    rw [← Yaml.shown?_eq_self_iff]
    decide +kernel
  have hplain : IsPlain { root := none } (.scalar {} .plain "1.10") "1.10" :=
    ⟨⟨{}, rfl, rfl⟩, by decide +kernel⟩
  constructor
  · have hiff := (plain_scalar_kept_iff [] { root := none } { version := some "1.10" }).1
      { key := .scalar {} .plain "version" } .version "1.10" { version := some "1.10" } rfl rfl
      trivial rfl "version: 1.10" "1.10" (.scalar {} .plain "1.10") (by cbv) hplain
    exact fun h => hcanonical (hiff.mp h)
  · obtain ⟨i, hi, hiff⟩ := (plain_scalar_kept_iff [] { root := none }
      { dependencies := [⟨"g", "a", "1.10"⟩] }).2 { key := .scalar {} .plain "dependencies" }
      { key := .scalar {} .plain "g:a" } .dependencies "g:a" "1.10" ['g'] ['a'] {} [] [] rfl
      (by decide +kernel) rfl (by decide) (by decide) (by simp) rfl
    have hzero : i = 0 := by
      obtain ⟨hlt, _⟩ := List.getElem?_eq_some_iff.mp hi
      exact Nat.lt_one_iff.mp hlt
    subst hzero
    have hread := hiff "dependencies:\n- g:a: 1.10" "1.10" (.scalar {} .plain "1.10") (by cbv)
      hplain
      (by decide)
    exact fun h => hcanonical (hread.mp h).1

end Manifest

end SourceEdit
