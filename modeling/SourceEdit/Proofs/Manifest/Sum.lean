import SourceEdit.Proofs.Manifest.PlainValue

/-!
# The sum of the documents

What a manifest is read as, told by all its documents at once. Whether a document can be added does
not depend on those before it: the first that cannot be is the error, whatever comes behind it. If
all of them can, the last that sets a single value counts, lists are those of all documents one
after another, and where the content comes from is taken from one document only.
-/

namespace SourceEdit.Manifest

open Yaml (Document Node)

variable {m : Manifest} {p : Part} {ps : List Part} {d : Option Document}
  {ds : List (Option Document)} {e : ManifestError}

/-! ## Lists of coordinates -/

/-- An entry of a list of coordinates: a text, or a mapping from pairs of group and artifact to
versions. -/
inductive Entry where
  | plain (text : String)
  | pinned (versions : Dict String)

def Entry.texts : Entry → List String
  | .plain text => [text]
  | .pinned versions => versions.entries.map fun e => e.1 ++ ":" ++ e.2

def pins? (d : Document) (entries : List (Node × Node)) : Option (List (String × String)) :=
  entries.mapM fun e => do some (← textOnly? d e.1, ← value? d e.2)

def entryOf? (d : Document) (n : Node) : Option Entry :=
  match d.deref n with
  | .mapping props entries =>
    if props.tag.any (·.startsWith "!") then none
    else (pins? d entries).map fun pins => .pinned (Dict.ofList pins)
  | n => (textOnly? d n).map .plain

theorem coordinateTexts?_eq (d : Document) (n : Node) :
    coordinateTexts? d n = (entryOf? d n).map Entry.texts := by
  unfold coordinateTexts? entryOf?
  cases d.deref n with
  | mapping props entries =>
      dsimp only
      by_cases htag : props.tag.any (·.startsWith "!") = true
      · rw [if_pos htag, if_pos htag]
        rfl
      · rw [if_neg htag, if_neg htag]
        show (pins? d entries).bind _ = _
        cases pins? d entries with
        | none => rfl
        | some pins => rfl
  | _ =>
      show (textOnly? d _).map _ = ((textOnly? d _).map _).map _
      rw [Option.map_map]
      rfl

/-- A mapping is read as its last version under each pair, in the order of the pairs. -/
theorem of_entryOf?_pinned {d : Document} {n : Node} {versions : Dict String}
    (h : entryOf? d n = some (.pinned versions)) :
    ∃ props entries pins, d.deref n = .mapping props entries ∧ pins? d entries = some pins ∧
      ∀ pair, versions.get? pair = latest? (Dict.under pair) pins := by
  unfold entryOf? at h
  cases hn : d.deref n with
  | mapping props entries =>
      rw [hn] at h
      dsimp only at h
      split at h
      · cases h
      · obtain ⟨pins, hpins, hentry⟩ := Option.map_eq_some_iff.mp h
        obtain rfl := Entry.pinned.inj hentry
        exact ⟨props, entries, pins, rfl, hpins, Dict.get?_ofList pins⟩
  | _ =>
      rw [hn] at h
      obtain ⟨text, -, hentry⟩ := Option.map_eq_some_iff.mp h
      cases hentry

theorem coordinateList?_eq_some_iff {d : Document} {n : Node} {texts : List String} :
    coordinateList? d n = some texts ↔ ∃ items entries, items? d n = some items ∧
      items.mapM (entryOf? d) = some entries ∧ texts = entries.flatMap Entry.texts := by
  have hmap : ∀ items : List Node, items.mapM (coordinateTexts? d) =
      (items.mapM (entryOf? d)).map fun entries => entries.map Entry.texts := by
    intro items
    induction items with
    | nil => rfl
    | cons item items ih =>
        rw [List.mapM_cons, List.mapM_cons, ih, coordinateTexts?_eq]
        cases entryOf? d item with
        | none => rfl
        | some entry =>
            cases items.mapM (entryOf? d) with
            | none => rfl
            | some entries => rfl
  constructor
  · intro h
    obtain ⟨items, hitems, h⟩ := Option.bind_eq_some_iff.mp h
    rw [hmap] at h
    obtain ⟨lists, hlists, h⟩ := Option.bind_eq_some_iff.mp h
    obtain ⟨entries, hentries, rfl⟩ := Option.map_eq_some_iff.mp hlists
    obtain rfl := Option.some.inj h
    exact ⟨items, entries, hitems, hentries, List.flatMap_def.symm⟩
  · rintro ⟨items, entries, hitems, hentries, rfl⟩
    rw [coordinateList?, hitems]
    show (items.mapM (coordinateTexts? d)).bind _ = _
    rw [hmap, hentries, List.flatMap_def]
    rfl

def address? (d : Document) (e : String × Node) : Option (String × Option String) := do
  let url ← optional? (repositoryUrl? d) d e.2
  some (e.1, url.join)

def addresses? (d : Document) (n : Node) : Option (List (String × Option String)) :=
  (namedEntries? d n).bind fun es => es.mapM (address? d)

/-- Repositories come in the order of their names, and the last under a name counts. -/
theorem of_repositories? {d : Document} {n : Node} {rs : List Repository}
    (h : repositories? d n = some rs) :
    ∃ addresses, addresses? d n = some addresses ∧ ∃ table : Dict (Option String),
      rs = table.entries.map (fun e => { id := e.1, url := e.2 }) ∧
      ∀ id, table.get? id = latest? (Dict.under id) addresses := by
  obtain ⟨es, hes, h⟩ := Option.bind_eq_some_iff.mp h
  obtain ⟨addresses, haddresses, h⟩ := Option.bind_eq_some_iff.mp h
  obtain rfl := Option.some.inj h
  refine ⟨addresses, ?_, Dict.ofList addresses, rfl, Dict.get?_ofList addresses⟩
  rw [addresses?, hes]
  exact haddresses

/-! ## What stands against a document -/

def isNoCoordinate (t : String) : Bool := (Coordinate.ofString? t).isNone

theorem coordinates_of_good {ts : List String} (h : ts.find? isNoCoordinate = none) :
    coordinates ts = .ok (ts.filterMap Coordinate.ofString?) ∧
      ts.map Coordinate.ofString? = (ts.filterMap Coordinate.ofString?).map some := by
  induction ts with
  | nil => exact ⟨rfl, rfl⟩
  | cons t ts ih =>
      cases hc : Coordinate.ofString? t with
      | none =>
          rw [List.find?_cons_of_pos (by rw [isNoCoordinate, hc]; rfl)] at h
          cases h
      | some c =>
          rw [List.find?_cons_of_neg (by rw [isNoCoordinate, hc]; exact Bool.false_ne_true)] at h
          obtain ⟨hts, hsome⟩ := ih h
          rw [List.filterMap_cons_some hc]
          refine ⟨coordinates_cons_eq_ok_iff.mpr ⟨c, _, hc, hts, rfl⟩, ?_⟩
          rw [List.map_cons, List.map_cons, hc, hsome]

theorem coordinates_of_bad {ts : List String} {t : String}
    (h : ts.find? isNoCoordinate = some t) :
    coordinates ts = .error (.invalidCoordinate t) := by
  induction ts with
  | nil => cases h
  | cons t' ts ih =>
      rw [coordinates, List.mapM_cons]
      cases hc : Coordinate.ofString? t' with
      | none =>
          rw [List.find?_cons_of_pos (by rw [isNoCoordinate, hc]; rfl)] at h
          obtain rfl := Option.some.inj h
          rfl
      | some c =>
          rw [List.find?_cons_of_neg (by rw [isNoCoordinate, hc]; exact Bool.false_ne_true)] at h
          have hrest := ih h
          rw [coordinates] at hrest
          rw [hrest]
          rfl

/-- The first text of a part that is no coordinate: one of its dependencies, or else one of its
extensions. -/
def Part.fault? (p : Part) : Option ManifestError :=
  ((p.dependencies ++ p.extensions).find? isNoCoordinate).map .invalidCoordinate

/-- What stands against a document, whatever the documents before it are: it may be unreadable or
no record, or have a text that is no coordinate. -/
def fault? (d : Option Document) : Option ManifestError :=
  match d.bind partOf? with
  | none => some .malformed
  | some said => said.bind Part.fault?

def said? (d : Option Document) : Option Part :=
  (d.bind partOf?).join

theorem addPart_of_fault (h : p.fault? = some e) (m : Manifest) : m.addPart p = .error e := by
  obtain ⟨t, hfind, rfl⟩ := Option.map_eq_some_iff.mp h
  have hchain : m.addPart p = coordinates p.dependencies >>= fun ds =>
      coordinates p.extensions >>= fun es => pure _ := rfl
  rw [hchain]
  rw [List.find?_append] at hfind
  cases hdependencies : p.dependencies.find? isNoCoordinate with
  | some t' =>
      rw [hdependencies, Option.some_or] at hfind
      rw [coordinates_of_bad (hdependencies.trans hfind)]
      rfl
  | none =>
      rw [hdependencies, Option.none_or] at hfind
      rw [(coordinates_of_good hdependencies).1, coordinates_of_bad hfind]
      rfl

theorem addDocument_of_fault (h : fault? d = some e) (m : Manifest) :
    m.addDocument d = .error e := by
  cases d with
  | none =>
      obtain rfl := Option.some.inj h
      rfl
  | some d =>
      rw [fault?, Option.bind_some] at h
      rw [addDocument]
      cases hpart : partOf? d with
      | none =>
          rw [hpart] at h
          obtain rfl := Option.some.inj h
          rfl
      | some said =>
          rw [hpart] at h
          obtain ⟨p, rfl, hp⟩ := Option.bind_eq_some_iff.mp h
          exact addPart_of_fault hp m

/-! ## What the documents say together -/

def ofParts (ps : List Part) : Manifest where
  group := (latest? (·.group) ps).getD ""
  artifact := (latest? (·.artifact) ps).getD ""
  version := latest? (·.version) ps
  requires := (latest? (·.requires) ps).map withoutSpaces
  dependencies := (ps.flatMap (·.dependencies)).filterMap Coordinate.ofString?
  extensions := (ps.flatMap (·.extensions)).filterMap Coordinate.ofString?
  repositories := ps.flatMap (·.repositories)
  excludes := {
    editors := ps.flatMap (·.excludes.editors)
    generators := ps.flatMap (·.excludes.generators)
    reviewers := ps.flatMap (·.excludes.reviewers)
    commandHandlers := ps.flatMap (·.excludes.commandHandlers)
    eventHandlers := ps.flatMap (·.excludes.eventHandlers)
    responseHandlers := ps.flatMap (·.excludes.responseHandlers) }
  provenance := latest? Part.provenance ps

theorem good_of_fault?_none (h : p.fault? = none) :
    p.dependencies.find? isNoCoordinate = none ∧ p.extensions.find? isNoCoordinate = none := by
  rw [Part.fault?, Option.map_eq_none_iff, List.find?_append, Option.or_eq_none_iff] at h
  exact h

/-- **One more part** is added as the sum says. -/
theorem addPart_ofParts (h : p.fault? = none) (ps : List Part) :
    (ofParts ps).addPart p = .ok (ofParts (ps ++ [p])) := by
  obtain ⟨hdependencies, hextensions⟩ := good_of_fault?_none h
  refine addPart_eq_ok_iff.mpr ⟨_, _, (coordinates_of_good hdependencies).1,
    (coordinates_of_good hextensions).1, ?_⟩
  simp only [ofParts, latest?_concat, List.flatMap_append, List.filterMap_append,
    List.flatMap_singleton, Excludes.append, Option.getD_or, Option.map_or, Option.orElse_eq_orElse,
    Option.orElse_eq_or]

theorem addDocument_ofParts (h : fault? d = none) (ps : List Part) :
    (ofParts ps).addDocument d = .ok (ofParts (ps ++ (said? d).toList)) := by
  cases d with
  | none => cases h
  | some d =>
      rw [fault?, Option.bind_some] at h
      rw [addDocument, said?, Option.bind_some]
      cases hpart : partOf? d with
      | none =>
          rw [hpart] at h
          cases h
      | some said =>
          rw [hpart] at h
          cases said with
          | none =>
              rw [Option.join_some, Option.toList_none, List.append_nil]
          | some p => exact addPart_ofParts h ps

/-- Nothing stands against any document, or there is a first one against which something does. -/
theorem good_or_bad (ds : List (Option Document)) : (∀ d ∈ ds, fault? d = none) ∨
    ∃ before d after e, ds = before ++ d :: after ∧ (∀ d' ∈ before, fault? d' = none) ∧
      fault? d = some e := by
  cases h : ds.findSome? fault? with
  | none => exact .inl (List.findSome?_eq_none_iff.mp h)
  | some e =>
      obtain ⟨before, d, after, hds, hd, hbefore⟩ := List.findSome?_eq_some_iff.mp h
      exact .inr ⟨before, d, after, e, hds, hbefore, hd⟩

theorem ofDocuments_of_good (h : ∀ d ∈ ds, fault? d = none) :
    ofDocuments ds = .ok (ofParts (ds.filterMap said?)) := by
  -- from the end, where `ofParts` takes one more part
  induction ds using List.reverseRecOn with
  | nil => rfl
  | append_singleton ds d ih =>
      have hlast : (ds ++ [d]).filterMap said? = ds.filterMap said? ++ (said? d).toList := by
        rw [List.filterMap_append]
        cases hd : said? d with
        | none => rw [List.filterMap_cons_none hd]; rfl
        | some p => rw [List.filterMap_cons_some hd]; rfl
      rw [ofDocuments_concat, ih fun d' hd' => h d' (List.mem_append_left _ hd'), hlast]
      exact addDocument_ofParts (h d (by simp)) _

theorem ofDocuments_of_bad {before after : List (Option Document)}
    (hbefore : ∀ d' ∈ before, fault? d' = none) (h : fault? d = some e) :
    ofDocuments (before ++ d :: after) = .error e := by
  have hfold : ofDocuments (before ++ d :: after) =
      ofDocuments before >>= fun m => (d :: after).foldlM addDocument m := List.foldlM_append
  rw [hfold, ofDocuments_of_good hbefore]
  show (d :: after).foldlM addDocument _ = _
  rw [List.foldlM_cons, addDocument_of_fault h]
  rfl

theorem ofDocuments_eq_ok_iff : ofDocuments ds = .ok m ↔
    (∀ d ∈ ds, fault? d = none) ∧ m = ofParts (ds.filterMap said?) := by
  constructor
  · intro h
    rcases good_or_bad ds with hgood | ⟨before, d, after, e, rfl, hbefore, hd⟩
    · rw [ofDocuments_of_good hgood] at h
      exact ⟨hgood, (Except.ok.inj h).symm⟩
    · rw [ofDocuments_of_bad hbefore hd] at h
      cases h
  · rintro ⟨hgood, rfl⟩
    exact ofDocuments_of_good hgood

/-- Documents are refused for the first of them against which something stands. -/
theorem ofDocuments_eq_error_iff : ofDocuments ds = .error e ↔ ∃ before d after,
    ds = before ++ d :: after ∧ (∀ d' ∈ before, fault? d' = none) ∧ fault? d = some e := by
  constructor
  · intro h
    rcases good_or_bad ds with hgood | ⟨before, d, after, e', rfl, hbefore, hd⟩
    · rw [ofDocuments_of_good hgood] at h
      cases h
    · rw [ofDocuments_of_bad hbefore hd] at h
      obtain rfl := Except.error.inj h
      exact ⟨before, d, after, rfl, hbefore, hd⟩
  · rintro ⟨before, d, after, rfl, hbefore, hd⟩
    exact ofDocuments_of_bad hbefore hd

theorem fault?_of_said (h : fault? d = none) (hsaid : said? d = some p) : p.fault? = none := by
  have hread : d.bind partOf? = some (some p) := Option.join_eq_some_iff.mp hsaid
  rw [fault?, hread] at h
  exact h

/-- No text of a coordinate is lost in a sum of good parts. -/
theorem map_coordinates_ofParts (h : ∀ p ∈ ps, p.fault? = none) :
    (ps.flatMap (·.dependencies)).map Coordinate.ofString? =
        (ofParts ps).dependencies.map some ∧
      (ps.flatMap (·.extensions)).map Coordinate.ofString? = (ofParts ps).extensions.map some := by
  have hgood : ∀ f : Part → List String, (∀ p ∈ ps, (f p).find? isNoCoordinate = none) →
      (ps.flatMap f).find? isNoCoordinate = none := by
    intro f hf
    rw [List.find?_eq_none]
    intro t ht
    obtain ⟨p, hp, htext⟩ := List.mem_flatMap.mp ht
    exact List.find?_eq_none.mp (hf p hp) t htext
  exact ⟨(coordinates_of_good (hgood _ fun p hp => (good_of_fault?_none (h p hp)).1)).2,
    (coordinates_of_good (hgood _ fun p hp => (good_of_fault?_none (h p hp)).2)).2⟩

theorem Part.provenance_eq_some_iff {o : Provenance} : p.provenance = some o ↔
    p.repo = some o.repo ∧ p.branch = some o.branch ∧ p.sha = some o.sha := by
  constructor
  · intro h
    obtain ⟨repo, hrepo, h⟩ := Option.bind_eq_some_iff.mp h
    obtain ⟨branch, hbranch, h⟩ := Option.bind_eq_some_iff.mp h
    obtain ⟨sha, hsha, h⟩ := Option.bind_eq_some_iff.mp h
    obtain rfl := Option.some.inj h
    exact ⟨hrepo, hbranch, hsha⟩
  · rintro ⟨hrepo, hbranch, hsha⟩
    rw [Part.provenance, hrepo, hbranch, hsha]
    rfl

theorem Part.provenance_eq_none_iff :
    p.provenance = none ↔ p.repo = none ∨ p.branch = none ∨ p.sha = none := by
  rw [Part.provenance]
  cases p.repo with
  | none => simp
  | some repo =>
      cases p.branch with
      | none => simp
      | some branch =>
          cases p.sha with
          | none => simp
          | some sha => simp

/-- Where the content comes from is taken from the last part that says so completely. -/
theorem provenance_ofParts_iff {o : Provenance} : (ofParts ps).provenance = some o ↔
    ∃ before p after, ps = before ++ p :: after ∧
      (p.repo = some o.repo ∧ p.branch = some o.branch ∧ p.sha = some o.sha) ∧
      ∀ q ∈ after, q.repo = none ∨ q.branch = none ∨ q.sha = none := by
  show latest? Part.provenance ps = some o ↔ _
  simp only [latest?_eq_some_iff, Part.provenance_eq_some_iff, Part.provenance_eq_none_iff]

theorem readsAs_of_said {d : Document} {root : Node} (hroot : d.root = some root)
    (hsaid : said? (some d) = some p) : ∃ es, namedEntries? d root = some es ∧ ReadsAs d es p := by
  have hread : partOf? d = some (some p) := Option.join_eq_some_iff.mp hsaid
  rw [partOf?, hroot] at hread
  obtain ⟨absent, -, hread⟩ := Option.bind_eq_some_iff.mp hread
  split at hread
  · cases hread
  · obtain ⟨p', hpart, hp⟩ := Option.map_eq_some_iff.mp hread
    obtain rfl := Option.some.inj hp
    exact part?_eq_some_iff.mp hpart

/-! ## Any text -/

/-- **The documents of a manifest are added in order.** The first against which something stands is
the error, also if a later one is unreadable. If nothing stands against any, then each single value
is that of the last document that sets it, and lists are those of all documents one after another:
every text of a coordinate is read, the entries of a mapping and the repositories of a document come
in the order of their names, and where the content comes from is what the last document says that
says it completely. So documents behind a manifest change neither an error nor the way in which the
ones before them are read. -/
theorem ofText_adds_in_order (text : String) :
    (∀ e, ofText text = .error e ↔ ∃ before d after,
      Yaml.documents text.toList = before ++ d :: after ∧ (∀ d' ∈ before, fault? d' = none) ∧
      fault? d = some e) ∧
    (∀ m, ofText text = .ok m ↔ (∀ d ∈ Yaml.documents text.toList, fault? d = none) ∧
      m = ofParts ((Yaml.documents text.toList).filterMap said?)) ∧
    (∀ m ps, ofText text = .ok m → ps = (Yaml.documents text.toList).filterMap said? →
      (ps.flatMap (·.dependencies)).map Coordinate.ofString? = m.dependencies.map some ∧
      (ps.flatMap (·.extensions)).map Coordinate.ofString? = m.extensions.map some ∧
      ∀ o, m.provenance = some o ↔ ∃ before p after, ps = before ++ p :: after ∧
        (p.repo = some o.repo ∧ p.branch = some o.branch ∧ p.sha = some o.sha) ∧
        ∀ q ∈ after, q.repo = none ∨ q.branch = none ∨ q.sha = none) ∧
    (∀ d root p, d.root = some root → said? (some d) = some p →
      ∃ es, namedEntries? d root = some es ∧ ReadsAs d es p) ∧
    (∀ d n texts, coordinateList? d n = some texts ↔ ∃ items entries, items? d n = some items ∧
      items.mapM (entryOf? d) = some entries ∧ texts = entries.flatMap Entry.texts) ∧
    (∀ d n versions, entryOf? d n = some (.pinned versions) → ∃ props entries pins,
      d.deref n = .mapping props entries ∧ pins? d entries = some pins ∧
      (versions.entries.Pairwise fun a b => a.1 < b.1) ∧
      ∀ pair, versions.get? pair = latest? (Dict.under pair) pins) ∧
    (∀ d n rs, repositories? d n = some rs → ∃ addresses, addresses? d n = some addresses ∧
      ∃ table : Dict (Option String), rs = table.entries.map (fun e => { id := e.1, url := e.2 }) ∧
      (table.entries.Pairwise fun a b => a.1 < b.1) ∧
      ∀ id, table.get? id = latest? (Dict.under id) addresses) ∧
    ∀ (more : String) ds,
      Yaml.documents more.toList = Yaml.documents text.toList ++ ds →
      ofText more = ofText text >>= fun m => ds.foldlM addDocument m := by
  have hfold : ∀ text, ofText text = ofDocuments (Yaml.documents text.toList) := fun _ => rfl
  refine ⟨fun e => ofDocuments_eq_error_iff, fun m => ofDocuments_eq_ok_iff, ?_,
    fun d root p hroot hsaid => readsAs_of_said hroot hsaid,
    fun d n texts => coordinateList?_eq_some_iff, ?_, ?_, ?_⟩
  · rintro m ps hm rfl
    obtain ⟨hgood, rfl⟩ := ofDocuments_eq_ok_iff.mp hm
    have hparts : ∀ p ∈ (Yaml.documents text.toList).filterMap said?, p.fault? = none := by
      intro p hp
      obtain ⟨d, hd, hsaid⟩ := List.mem_filterMap.mp hp
      exact fault?_of_said (hgood d hd) hsaid
    obtain ⟨hdependencies, hextensions⟩ := map_coordinates_ofParts hparts
    exact ⟨hdependencies, hextensions, fun o => provenance_ofParts_iff⟩
  · intro d n versions h
    obtain ⟨props, entries, pins, hn, hpins, hget⟩ := of_entryOf?_pinned h
    exact ⟨props, entries, pins, hn, hpins, versions.sorted, hget⟩
  · intro d n rs h
    obtain ⟨addresses, haddresses, table, hrs, hget⟩ := of_repositories? h
    exact ⟨addresses, haddresses, table, hrs, table.sorted, hget⟩
  · intro more ds hmore
    rw [hfold, hmore]
    exact List.foldlM_append

end SourceEdit.Manifest
