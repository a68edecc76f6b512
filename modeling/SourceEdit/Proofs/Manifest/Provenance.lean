import SourceEdit.Editor
import SourceEdit.Proofs.Manifest.PlainValue
import SourceEdit.Proofs.Yaml.Written.Chain

/-!
# Records of provenance behind a manifest

A record of provenance says where the content comes from and nothing else. Behind a manifest and the
line of a marker it is a document of its own, whatever stands in it, and of several such records the
last counts.
-/

namespace SourceEdit.Manifest

open Yaml (Document Record recordDocument recordEntries chainText styleFor)

variable {m : Manifest} {o : Provenance} {os : List Provenance} {value : String}

/-! ## A value -/

theorem value?_styleFor (d : Document) (value : String) :
    value? d (.scalar {} (styleFor value) value) = some value := by
  have hsuits := Yaml.suits_styleFor value
  generalize styleFor value = style at hsuits
  cases hsuits with
  | plain htext hne havoid =>
      have hmeaning : Yaml.meaning value = .text := by
        rw [Yaml.readsAsText, Bool.and_eq_true, beq_iff_eq] at htext
        exact htext.1
      show shown? value (Yaml.meaning value) = some value
      rw [hmeaning]
      rfl
  | singleQuoted hfeed havoid => rfl
  | doubleQuoted => rfl
  | literal hne havoid => rfl

theorem isAbsent?_styleFor (d : Document) (value : String) :
    isAbsent? d (.scalar {} (styleFor value) value) = some false := by
  have hsuits := Yaml.suits_styleFor value
  generalize styleFor value = style at hsuits
  cases hsuits with
  | plain htext hne havoid =>
      rw [Yaml.readsAsText, Bool.and_eq_true, beq_iff_eq] at htext
      have hplain : IsPlain d (.scalar {} .plain value) value :=
        ⟨⟨{}, rfl, rfl⟩, by rw [htext.1]; simp⟩
      exact hplain.isAbsent?_eq
  | singleQuoted hfeed havoid => rfl
  | doubleQuoted => rfl
  | literal hne havoid => rfl

theorem optional?_styleFor (d : Document) (value : String) :
    optional? (value? d) d (.scalar {} (styleFor value) value) = some (some value) := by
  rw [optional?, isAbsent?_styleFor]
  show (value? d _).map some = _
  rw [value?_styleFor]
  rfl

/-! ## A record -/

def originRecord (o : Provenance) : Record :=
  [("repo", o.repo), ("branch", o.branch), ("sha", o.sha)]

theorem writable_originRecord (o : Provenance) : Yaml.Writable (originRecord o) where
  nonempty := List.cons_ne_nil _ _
  names := by
    intro f hf
    have hname : f.1 ∈ ["repo", "branch", "sha"] := List.mem_map_of_mem hf
    have hwords : ∀ name ∈ ["repo", "branch", "sha"], name.toList ≠ [] ∧
        name.toList.all Char.isAlpha = true ∧ name.toList.length ≤ 1024 := by decide
    obtain ⟨hne, hletters, hshort⟩ := hwords f.1 hname
    exact ⟨hne, List.all_eq_true.mp hletters, hshort⟩

theorem part?_originRecord (d : Document) (o : Provenance) :
    part? d (.mapping {} (recordEntries (originRecord o))) =
      some { repo := some o.repo, branch := some o.branch, sha := some o.sha } := by
  refine part?_eq_some_iff.mpr ⟨[("repo", .scalar {} (styleFor o.repo) o.repo),
    ("branch", .scalar {} (styleFor o.branch) o.branch),
    ("sha", .scalar {} (styleFor o.sha) o.sha)], rfl, ?_, ?_, rfl, rfl⟩
  · intro key
    cases key with
    | repo => exact optional?_styleFor d o.repo
    | branch => exact optional?_styleFor d o.branch
    | sha => exact optional?_styleFor d o.sha
    | _ => rfl
  · intro list
    cases list <;> rfl

theorem addDocument_originRecord (m : Manifest) (o : Provenance) :
    m.addDocument (some (recordDocument (originRecord o))) =
      .ok { m with provenance := some o } := by
  have hpart : partOf? (recordDocument (originRecord o)) =
      some (some { repo := some o.repo, branch := some o.branch, sha := some o.sha }) := by
    show (part? _ (.mapping {} (recordEntries (originRecord o)))).map some = _
    rw [part?_originRecord]
    rfl
  rw [addDocument, hpart]
  refine addPart_eq_ok_iff.mpr ⟨[], [], rfl, rfl, ?_⟩
  cases m
  simp [Part.provenance, Excludes.append]

/-! ## Behind a manifest -/

def withOrigin (m : Manifest) (o : Provenance) : Manifest := { m with provenance := some o }

/-- A manifest and records of provenance behind it, each after the line of a marker. -/
def recorded (content : String) (os : List Provenance) : String :=
  os.foldl Editor.withProvenance content

theorem foldlM_originRecords (m : Manifest) (o : Provenance) (os : List Provenance) :
    ((o :: os).map fun o => some (recordDocument (originRecord o))).foldlM addDocument m =
      .ok (m.withOrigin ((o :: os).getLast (List.cons_ne_nil o os))) := by
  induction os generalizing m o with
  | nil =>
      rw [List.map_singleton, List.foldlM_cons, addDocument_originRecord]
      rfl
  | cons o' os ih =>
      rw [List.map_cons, List.foldlM_cons, addDocument_originRecord]
      exact ih _ o'

theorem recorded_toList (content : String) (o : Provenance) (os : List Provenance) :
    (recorded content (o :: os)).toList = Yaml.marked content.toList ++
      chainText (originRecord o) (os.map originRecord) := by
  have hrecord : ∀ o, (Editor.provenanceRecord o).toList = Yaml.recordText (originRecord o) :=
    fun o => Yaml.renderRecord_toList _
  have hstep : ∀ content o, (Editor.withProvenance content o).toList =
      Yaml.marked content.toList ++ Yaml.recordText (originRecord o) := by
    intro content o
    rw [Editor.withProvenance, String.toList_append, String.toList_append, hrecord, Yaml.marked]
    rfl
  induction os generalizing content o with
  | nil => exact hstep content o
  | cons o' os ih =>
      have hrest := ih (Editor.withProvenance content o) o'
      rw [hstep] at hrest
      refine hrest.trans ?_
      rw [List.map_cons, chainText]
      simp only [Yaml.marked, List.append_assoc, List.cons_append]

/-- **The documents behind a manifest** are one mapping for each record, whatever its texts are;
those of the manifest are not touched. -/
theorem documents_recorded (content : String) (o : Provenance) (os : List Provenance) :
    (∃ ds, Yaml.documents (content ++ "\n---\n").toList = ds ++ [none] ∧
        Yaml.documents (recorded content (o :: os)).toList = ds ++ [none]) ∨
      ∃ ds, Yaml.documents (content ++ "\n---\n").toList =
          ds ++ [some (Document.ofRoot .missing)] ∧
        Yaml.documents (recorded content (o :: os)).toList =
          ds ++ (o :: os).map fun o => some (recordDocument (originRecord o)) := by
  have hcontinues := Yaml.continues_chain (os.map originRecord) (writable_originRecord o)
    fun r hr => by
      obtain ⟨o', -, rfl⟩ := List.mem_map.mp hr
      exact writable_originRecord o'
  have hmarked : (content ++ "\n---\n").toList = Yaml.marked content.toList :=
    String.toList_append ..
  rw [hmarked, recorded_toList]
  have hmap : ((originRecord o :: os.map originRecord).map fun r => some (recordDocument r)) =
      (o :: os).map fun o => some (recordDocument (originRecord o)) := by
    rw [List.map_cons, List.map_cons, List.map_map]
    rfl
  rw [← hmap]
  exact Yaml.documents_marked hcontinues content.toList

/-- **A manifest with records behind it** is read exactly if the manifest is read in front of a
document without a root, and then the last record says where the content comes from. -/
theorem ofText_recorded (content : String) (o : Provenance) (os : List Provenance) :
    ofText (recorded content (o :: os)) = (ofText (content ++ "\n---\n")).map fun m =>
      m.withOrigin ((o :: os).getLast (List.cons_ne_nil o os)) := by
  have hfold : ∀ text, ofText text = ofDocuments (Yaml.documents text.toList) := fun _ => rfl
  rw [hfold, hfold]
  rcases documents_recorded content o os with ⟨ds, hshort, hlong⟩ | ⟨ds, hshort, hlong⟩
  · rw [hshort, hlong, ofDocuments_concat]
    cases ofDocuments ds <;> rfl
  · rw [hshort, hlong, ofDocuments_concat]
    have hsplit :
        ofDocuments (ds ++ (o :: os).map fun o => some (recordDocument (originRecord o))) =
        ofDocuments ds >>= ((o :: os).map fun o =>
          some (recordDocument (originRecord o))).foldlM addDocument := List.foldlM_append
    rw [hsplit]
    cases ofDocuments ds with
    | error e => rfl
    | ok m =>
        show List.foldlM addDocument m _ = _
        rw [foldlM_originRecords]
        rfl

end SourceEdit.Manifest
