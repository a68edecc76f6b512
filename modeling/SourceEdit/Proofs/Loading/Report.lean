import SourceEdit.Proofs.Dict
import SourceEdit.Proofs.Loading.Walk
import SourceEdit.Proofs.Project.Ordered

/-!
# Reports

A report on files with distinct paths does not depend on the order in which they were found.
-/

namespace SourceEdit

namespace Loader

variable {path : List String} {bytes : ByteArray} {maxFileSize : UInt64} {text content : String}
  {reason : SkipReason} {found found' : List FoundFile}

/-! ## One file -/

def pathOf : FoundFile → String
  | .text path _ => path
  | .skipped path _ => path

/-- A file counts as text if it is small enough and its bytes are those of a text without null
characters. -/
def IsText (maxFileSize : UInt64) (bytes : ByteArray) (content : String) : Prop :=
  bytes.size ≤ maxFileSize.toNat ∧ content.toUTF8 = bytes ∧ '\x00' ∉ content.toList

/-- Why a file is skipped: it is too large, or else it is the text of no content without null
characters. -/
def IsSkippedFor (maxFileSize : UInt64) (bytes : ByteArray) : SkipReason → Prop
  | .largeFile => maxFileSize.toNat < bytes.size
  | .binaryFile => bytes.size ≤ maxFileSize.toNat ∧
      ∀ content : String, content.toUTF8 = bytes → '\x00' ∈ content.toList

theorem examine_cases (maxFileSize : UInt64) (path : List String) (bytes : ByteArray) :
    (∃ content, examine maxFileSize path bytes = .text (pathText path) content ∧
      IsText maxFileSize bytes content) ∨
    ∃ reason, examine maxFileSize path bytes = .skipped (pathText path) reason ∧
      IsSkippedFor maxFileSize bytes reason := by
  unfold examine
  by_cases hlarge : bytes.size > maxFileSize.toNat
  · rw [if_pos hlarge]
    exact .inr ⟨.largeFile, rfl, hlarge⟩
  · have hsmall : bytes.size ≤ maxFileSize.toNat := Nat.le_of_not_lt hlarge
    rw [if_neg hlarge]
    cases hread : String.fromUTF8? bytes with
    | none =>
        refine .inr ⟨.binaryFile, rfl, hsmall, fun content hcontent => ?_⟩
        rw [fromUTF8?_eq_some_iff.mpr hcontent] at hread
        cases hread
    | some content =>
        have hcontent := fromUTF8?_eq_some_iff.mp hread
        dsimp only
        by_cases hnull : content.toList.contains '\x00' = true
        · rw [if_pos hnull]
          refine .inr ⟨.binaryFile, rfl, hsmall, fun content' hcontent' => ?_⟩
          rw [fromUTF8?_eq_some_iff.mpr hcontent'] at hread
          obtain rfl := Option.some.inj hread
          exact List.contains_iff_mem.mp hnull
        · rw [if_neg hnull]
          exact .inl ⟨content, rfl, hsmall, hcontent,
            fun hmem => hnull (List.contains_iff_mem.mpr hmem)⟩

/-- A file is text with one content only, and is skipped then for no reason. -/
theorem IsText.not_skipped (h : IsText maxFileSize bytes content) :
    ¬ IsSkippedFor maxFileSize bytes reason := by
  obtain ⟨hsmall, hcontent, hnull⟩ := h
  intro hskipped
  cases reason with
  | largeFile => exact absurd hskipped (Nat.not_lt.mpr hsmall)
  | binaryFile => exact hnull (hskipped.2 content hcontent)

theorem examine_eq_text_iff : examine maxFileSize path bytes = .text text content ↔
    text = pathText path ∧ IsText maxFileSize bytes content := by
  rcases examine_cases maxFileSize path bytes with ⟨content', heq, htext⟩ | ⟨reason, heq, hskipped⟩
  · rw [heq, FoundFile.text.injEq, eq_comm]
    refine and_congr_right fun _ => ⟨?_, fun h => ?_⟩
    · rintro rfl
      exact htext
    · have hbytes := htext.2.1.trans h.2.1.symm
      exact String.toByteArray_inj.mp hbytes
  · rw [heq]
    constructor
    · intro h
      cases h
    · rintro ⟨-, h⟩
      exact absurd hskipped h.not_skipped

theorem examine_eq_skipped_iff : examine maxFileSize path bytes = .skipped text reason ↔
    text = pathText path ∧ IsSkippedFor maxFileSize bytes reason := by
  rcases examine_cases maxFileSize path bytes with ⟨content, heq, htext⟩ | ⟨reason', heq, hskipped⟩
  · rw [heq]
    constructor
    · intro h
      cases h
    · rintro ⟨-, h⟩
      exact absurd h htext.not_skipped
  · rw [heq, FoundFile.skipped.injEq, eq_comm]
    refine and_congr_right fun _ => ⟨?_, fun h => ?_⟩
    · rintro rfl
      exact hskipped
    · cases reason with
      | largeFile =>
          cases reason' with
          | largeFile => rfl
          | binaryFile => exact absurd h (Nat.not_lt.mpr hskipped.1)
      | binaryFile =>
          cases reason' with
          | largeFile => exact absurd hskipped (Nat.not_lt.mpr h.1)
          | binaryFile => rfl

theorem pathOf_examine (maxFileSize : UInt64) (path : List String) (bytes : ByteArray) :
    pathOf (examine maxFileSize path bytes) = pathText path := by
  rcases examine_cases maxFileSize path bytes with ⟨content, heq, -⟩ | ⟨reason, heq, -⟩
  · rw [heq]
    rfl
  · rw [heq]
    rfl

/-! ## Sorting -/

theorem sortByPath_perm {α : Type} (entries : List (String × α)) :
    (sortByPath entries).Perm entries :=
  List.mergeSort_perm _ _

theorem mem_sortByPath {α : Type} {entries : List (String × α)} {e : String × α} :
    e ∈ sortByPath entries ↔ e ∈ entries :=
  (sortByPath_perm entries).mem_iff

/-- Entries with distinct paths are sorted in strictly ascending order. -/
theorem sortByPath_pairwise {α : Type} {entries : List (String × α)}
    (h : (entries.map (·.1)).Nodup) :
    (sortByPath entries).Pairwise fun a b => a.1 < b.1 := by
  have hsorted : (sortByPath entries).Pairwise fun a b => a.1 ≤ b.1 := by
    refine (List.pairwise_mergeSort ?_ ?_ entries).imp fun h => of_decide_eq_true h
    · intro a b c hab hbc
      exact decide_eq_true (String.le_trans (of_decide_eq_true hab) (of_decide_eq_true hbc))
    · intro a b
      rw [Bool.or_eq_true, decide_eq_true_eq, decide_eq_true_eq]
      exact String.le_total a.1 b.1
  have hdistinct : (sortByPath entries).Pairwise fun a b => a.1 ≠ b.1 := by
    have hnodup := ((sortByPath_perm entries).map (·.1)).nodup_iff.mpr h
    exact List.pairwise_map.mp hnodup
  exact (hsorted.and hdistinct).imp fun h => Std.lt_of_le_of_ne h.1 h.2

theorem sortByPath_congr {α : Type} {entries entries' : List (String × α)}
    (h : (entries.map (·.1)).Nodup) (hperm : entries'.Perm entries) :
    sortByPath entries' = sortByPath entries := by
  refine Dict.eq_of_ascending
    (sortByPath_pairwise ((hperm.map (·.1)).nodup_iff.mpr h)) (sortByPath_pairwise h) fun e => ?_
  rw [mem_sortByPath, mem_sortByPath, hperm.mem_iff]

/-! ## All files -/

theorem nodup_filterMap_of {α : Type} {f : FoundFile → Option (String × α)}
    (hf : ∀ x e, f x = some e → e.1 = pathOf x) (h : (found.map pathOf).Nodup) :
    ((found.filterMap f).map (·.1)).Nodup := by
  induction found with
  | nil => exact List.nodup_nil
  | cons x found ih =>
      rw [List.map_cons, List.nodup_cons] at h
      cases hx : f x with
      | none =>
          rw [List.filterMap_cons_none hx]
          exact ih h.2
      | some e =>
          rw [List.filterMap_cons_some hx, List.map_cons, List.nodup_cons]
          refine ⟨fun hmem => h.1 ?_, ih h.2⟩
          obtain ⟨e', he', hpath⟩ := List.mem_map.mp hmem
          obtain ⟨y, hy, hye⟩ := List.mem_filterMap.mp he'
          rw [← hf x e hx, ← hpath, hf y e' hye]
          exact List.mem_map_of_mem hy

theorem path_of_textOf? (x : FoundFile) (e : String × String) (h : textOf? x = some e) :
    e.1 = pathOf x := by
  cases x with
  | text path content =>
      obtain rfl := Option.some.inj h
      rfl
  | skipped path reason => cases h

theorem path_of_skippedOf? (x : FoundFile) (e : String × SkipReason) (h : skippedOf? x = some e) :
    e.1 = pathOf x := by
  cases x with
  | text path content => cases h
  | skipped path reason =>
      obtain rfl := Option.some.inj h
      rfl

theorem mem_filterMap_textOf? :
    (text, content) ∈ found.filterMap textOf? ↔ .text text content ∈ found := by
  rw [List.mem_filterMap]
  constructor
  · rintro ⟨x, hx, hxe⟩
    cases x with
    | text path content =>
        obtain ⟨rfl, rfl⟩ := Prod.mk.inj (Option.some.inj hxe)
        exact hx
    | skipped path reason => cases hxe
  · exact fun hmem => ⟨_, hmem, rfl⟩

theorem mem_filterMap_skippedOf? :
    (text, reason) ∈ found.filterMap skippedOf? ↔ .skipped text reason ∈ found := by
  rw [List.mem_filterMap]
  constructor
  · rintro ⟨x, hx, hxe⟩
    cases x with
    | text path content => cases hxe
    | skipped path reason =>
        obtain ⟨rfl, rfl⟩ := Prod.mk.inj (Option.some.inj hxe)
        exact hx
  · exact fun hmem => ⟨_, hmem, rfl⟩

/-- **The report** on files with distinct, well-formed paths. -/
theorem report_eq_ok (rootText : String) (hpaths : ∀ x ∈ found, WellFormedPath (pathOf x))
    (hdistinct : (found.map pathOf).Nodup) :
    ∃ r, (∀ found', found'.Perm found → report rootText found' = .ok r) ∧
      (∀ text content, ⟨text, content⟩ ∈ r.project.files ↔ .text text content ∈ found) ∧
      (∀ text reason, (text, reason) ∈ r.skipped ↔ .skipped text reason ∈ found) ∧
      (r.project.files.Pairwise fun a b => a.path < b.path) ∧
      r.skipped.Pairwise fun a b => a.1 < b.1 := by
  have htexts := nodup_filterMap_of path_of_textOf? hdistinct
  have hskipped := nodup_filterMap_of path_of_skippedOf? hdistinct
  have hnodup := ((sortByPath_perm (found.filterMap textOf?)).map (·.1)).nodup_iff.mpr htexts
  have hwell : ∀ e ∈ sortByPath (found.filterMap textOf?), WellFormedPath e.1 := by
    intro e he
    obtain ⟨x, hx, hxe⟩ := List.mem_filterMap.mp (mem_sortByPath.mp he)
    rw [path_of_textOf? x e hxe]
    exact hpaths x hx
  obtain ⟨p, hp, hfiles⟩ := Project.ofFiles_of_good hwell hnodup
  refine ⟨⟨p, sortByPath (found.filterMap skippedOf?)⟩, fun found' hperm => ?_, ?_, ?_, ?_,
    sortByPath_pairwise hskipped⟩
  · rw [report, sortByPath_congr htexts (hperm.filterMap textOf?),
      sortByPath_congr hskipped (hperm.filterMap skippedOf?), hp]
  · intro text content
    rw [hfiles, List.mem_map, ← mem_filterMap_textOf?, ← mem_sortByPath]
    constructor
    · rintro ⟨e, he, heq⟩
      obtain ⟨rfl, rfl⟩ := File.mk.inj heq
      exact he
    · exact fun hmem => ⟨_, hmem, rfl⟩
  · intro text reason
    rw [mem_sortByPath, mem_filterMap_skippedOf?]
  · rw [hfiles, List.pairwise_map]
    exact sortByPath_pairwise htexts

end Loader

end SourceEdit
