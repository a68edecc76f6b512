import SourceEdit.Proofs.Binding
import SourceEdit.Proofs.Editor.Generation
import SourceEdit.Proofs.Editor.Recording
import SourceEdit.Proofs.Registry.Registration

/-!
# Runs of requests

A registry that holds the three built-in editors is asked to run them, over and over and in any
order, with values that have been bound or with raw ones. One request appends the generated file,
extends the manifest, or leaves the project as it is; which of these it does depends on the
parameters that it passes and on whether the path of generated files is taken. From this follows
what any run of requests leaves of a project.
-/

namespace SourceEdit

open Manifest (recorded)
open Editor (generatedPath generatedContent takenMessage)

inductive Request where
  /-- To run an editor with values that have been bound. -/
  | run (editor : String) (bundle : Bundle)
  /-- To bind raw values for an editor and run it. -/
  | invoke (editor : String) (raw : Dict String)

def Request.editor : Request → String
  | .run editor _ => editor
  | .invoke editor _ => editor

/-- The file that an editor generates from a bundle, if it is one that generates a file and has the
value that it needs. -/
def Editor.generated? (editor : String) (bundle : Bundle) : Option String :=
  if editor = "AddContentEditor" then bundle.get? "content"
  else if editor = "PomReportEditor" then
    (bundle.get? "packageName").map fun _ => generatedContent
  else none

def Succeeds (a : Except RegistryError EditResult) : Prop :=
  ∃ result, a = .ok result ∧ result.status = .success

namespace Registry

variable {r : Registry} {o : Provenance} {p p' : Project} {q : Request} {qs : List Request}

/-! ## Requests -/

def outcome (r : Registry) (p : Project) : Request → Except RegistryError (Project × EditResult)
  | .run editor bundle => r.run editor p bundle
  | .invoke editor raw => r.invoke editor p raw

def perform (r : Registry) (p : Project) (q : Request) :
    Project × Except RegistryError EditResult :=
  match r.outcome p q with
  | .ok (p', result) => (p', .ok result)
  | .error e => (p, .error e)

def after (r : Registry) (p : Project) (qs : List Request) : Project :=
  qs.foldl (fun p q => (r.perform p q).1) p

/-- The values with which a request has its editor run, unless they do not bind. -/
def bound? (r : Registry) : Request → Option Bundle
  | .run _ bundle => some bundle
  | .invoke editor raw => (r.bind editor raw).toOption

/-- The content of the file that a request generates, if its editor generates one and its parameters
are accepted. -/
def generated? (r : Registry) (q : Request) : Option String :=
  (r.bound? q).bind (Editor.generated? q.editor)

/-- Whether a request has provenance recorded: it is for that editor, and its parameters bind. -/
def records (r : Registry) (q : Request) : Bool :=
  decide (q.editor = "ProvenanceEditor") && (r.bound? q).isSome

/-- The registry holds the three built-in editors, the last of them with some origin, and no other
editor. -/
structure HoldsBuiltins (r : Registry) (o : Provenance) : Prop where
  addContent : r.find "AddContentEditor" = .ok .addContent
  pomReport : r.find "PomReportEditor" = .ok (.pomReport .pathExpressions)
  recordProvenance : r.find "ProvenanceEditor" = .ok (.recordProvenance o)
  others : ∀ name, name ≠ "AddContentEditor" → name ≠ "PomReportEditor" →
    name ≠ "ProvenanceEditor" → ∃ e, r.find name = .error e

theorem after_concat (r : Registry) (p : Project) (qs : List Request) (q : Request) :
    r.after p (qs ++ [q]) = (r.perform (r.after p qs) q).1 :=
  List.foldl_append

theorem outcome_of_bound {bundle : Bundle} (h : r.bound? q = some bundle) :
    r.outcome p q = r.run q.editor p bundle := by
  cases q with
  | run editor b =>
      obtain rfl := Option.some.inj h
      rfl
  | invoke editor raw =>
      have hbind : r.bind editor raw = .ok bundle := Outcome.eq_ok_of_toOption h
      show r.bind editor raw >>= (fun b => r.run editor p b) = _
      rw [hbind]
      rfl

theorem run_of_found {name : String} {e : Editor} (hfind : r.find name = .ok e) (p : Project)
    (bundle : Bundle) : r.run name p bundle = .ok (e.run p bundle) := by
  rw [run, hfind]
  rfl

theorem bind_of_found {name : String} {e : Editor} (hfind : r.find name = .ok e)
    (raw : Dict String) :
    r.bind name raw = (e.schema.bind raw r.catalog).mapError .binding := by
  rw [bind, schema, hfind]
  rfl

theorem perform_of_found {bundle : Bundle} {e : Editor} (hbound : r.bound? q = some bundle)
    (hfind : r.find q.editor = .ok e) :
    r.perform p q = ((e.run p bundle).1, .ok (e.run p bundle).2) := by
  rw [perform, outcome_of_bound hbound, run_of_found hfind]

theorem perform_of_refused {e : RegistryError} (h : r.outcome p q = .error e) :
    r.perform p q = (p, .error e) := by
  rw [perform, h]

theorem outcome_of_unbound (h : r.bound? q = none) : ∃ e, r.outcome p q = .error e := by
  cases q with
  | run editor bundle => cases h
  | invoke editor raw =>
      cases hbind : r.bind editor raw with
      | ok bundle =>
          have hbound : (r.bind editor raw).toOption = none := h
          rw [hbind] at hbound
          cases hbound
      | error e =>
          refine ⟨e, ?_⟩
          show r.bind editor raw >>= (fun b => r.run editor p b) = _
          rw [hbind]
          rfl

/-! ## What is recorded -/

def recordedIn (os : List Provenance) (f : File) : File :=
  if f.path = Manifest.path then { f with content := recorded f.content os } else f

theorem recordedIn_path (os : List Provenance) (f : File) : (recordedIn os f).path = f.path := by
  unfold recordedIn
  split
  · rfl
  · rfl

theorem recordedIn_of_ne {f : File} (h : f.path ≠ Manifest.path) (os : List Provenance) :
    recordedIn os f = f := if_neg h

theorem recordedIn_nil (f : File) : recordedIn [] f = f := by
  unfold recordedIn
  split
  · rfl
  · rfl

theorem recordedIn_concat (os : List Provenance) (o : Provenance) (f : File) :
    recordedIn [o] (recordedIn os f) = recordedIn (os ++ [o]) f := by
  by_cases h : f.path = Manifest.path
  · have hfirst : recordedIn os f = { f with content := recorded f.content os } := if_pos h
    have hboth : recordedIn (os ++ [o]) f = { f with content := recorded f.content (os ++ [o]) } :=
      if_pos h
    have hfold : recorded f.content (os ++ [o]) = recorded (recorded f.content os) [o] :=
      List.foldl_append
    rw [hfirst, hboth, hfold]
    exact if_pos h
  · rw [recordedIn_of_ne h, recordedIn_of_ne h, recordedIn_of_ne h]

/-- The editor that records provenance always succeeds, and puts its record behind the manifest if
there is one. -/
theorem run_recordProvenance_files (o : Provenance) (p : Project) (bundle : Bundle) :
    ∃ p' message, (Editor.recordProvenance o).run p bundle = (p', .success message) ∧
      p'.files = p.files.map (recordedIn [o]) := by
  cases hfile : p.find? Manifest.path with
  | none =>
      refine ⟨p, "No " ++ Manifest.path ++ " found; project unchanged", ?_, ?_⟩
      · have hedit : ((Editor.recordProvenance o).edit bundle).run p =
            (p, .ok (.success ("No " ++ Manifest.path ++ " found; project unchanged"))) := by
          simp only [Editor.recordProvenance, Edit.run, hfile]
        rw [Editor.run, hedit]
      · have hother : ∀ f ∈ p.files, recordedIn [o] f = f := fun f hf =>
          recordedIn_of_ne (fun hpath => Project.find?_eq_none_iff.mp hfile
            (hpath ▸ List.mem_map_of_mem hf)) [o]
        rw [List.map_congr_left hother, List.map_id']
  | some file =>
      obtain ⟨p', hrun, hfiles⟩ := Editor.run_recordProvenance bundle hfile o
      refine ⟨p', _, hrun, ?_⟩
      rw [hfiles]
      refine List.map_congr_left fun f hf => ?_
      by_cases hpath : f.path = Manifest.path
      · have hfound : p.find? Manifest.path = some f := Project.find?_eq_some_iff.mpr ⟨hf, hpath⟩
        obtain rfl := Option.some.inj (hfile.symm.trans hfound)
        rw [Project.replaceAt, if_pos hpath, recordedIn, if_pos hpath]
        rfl
      · rw [Project.replaceAt, if_neg hpath, recordedIn, if_neg hpath]

/-! ## One request -/

/-- What a request does: it generates a file or finds the path taken, it records where the project
comes from, or it does nothing and does not succeed. -/
inductive Does (r : Registry) (o : Provenance) (p : Project) (q : Request) :
    Project × Except RegistryError EditResult → Prop
  | generates {content : String} {p' : Project} {result : EditResult}
      (hgenerated : r.generated? q = some content) (hrecords : r.records q = false)
      (hrun : Editor.Generates q.editor content p (p', result)) : Does r o p q (p', .ok result)
  | records {p' : Project} {message : String}
      (hgenerated : r.generated? q = none) (hrecords : r.records q = true)
      (hfiles : p'.files = p.files.map (recordedIn [o])) :
      Does r o p q (p', .ok (.success message))
  | nothing {a : Except RegistryError EditResult}
      (hgenerated : r.generated? q = none) (hrecords : r.records q = false)
      (hfails : ¬ Succeeds a) : Does r o p q (p, a)

theorem not_succeeds_error (e : RegistryError) : ¬ Succeeds (.error e) := by
  rintro ⟨result, h, -⟩
  cases h

theorem not_succeeds_failure (message : String) : ¬ Succeeds (.ok (.failure message)) := by
  rintro ⟨result, h, hstatus⟩
  obtain rfl := Except.ok.inj h
  cases hstatus

theorem succeeds_success (message : String) : Succeeds (.ok (.success message)) :=
  ⟨_, rfl, rfl⟩

variable {out : Project × Except RegistryError EditResult} {content : String}

/-- What does not succeed changes nothing. -/
theorem Does.keeps (h : Does r o p q out) (hfails : ¬ Succeeds out.2) : out.1 = p := by
  cases h with
  | generates _ _ hrun =>
      cases hrun with
      | added => exact absurd (succeeds_success _) hfails
      | taken => rfl
  | records => exact absurd (succeeds_success _) hfails
  | nothing => rfl

theorem Does.adds_of_free (h : Does r o p q out) (hcontent : r.generated? q = some content)
    (hfree : generatedPath ∉ p.files.map (·.path)) :
    Succeeds out.2 ∧ out.1.files = p.files ++ [⟨generatedPath, content⟩] := by
  cases h with
  | generates hgenerated _ hrun =>
      obtain rfl := Option.some.inj (hgenerated.symm.trans hcontent)
      cases hrun with
      | added _ hfiles => exact ⟨succeeds_success _, hfiles⟩
      | taken htaken => exact absurd htaken hfree
  | records hgenerated => cases hgenerated.symm.trans hcontent
  | nothing hgenerated => cases hgenerated.symm.trans hcontent

theorem Does.fails_of_taken (h : Does r o p q out) (hcontent : r.generated? q = some content)
    (htaken : generatedPath ∈ p.files.map (·.path)) :
    out = (p, .ok (.failure (takenMessage q.editor))) := by
  cases h with
  | generates _ _ hrun =>
      cases hrun with
      | added hfree => exact absurd htaken hfree
      | taken => rfl
  | records hgenerated => cases hgenerated.symm.trans hcontent
  | nothing hgenerated => cases hgenerated.symm.trans hcontent

theorem Does.of_records (h : Does r o p q out) (hrequest : r.records q = true) :
    Succeeds out.2 ∧ out.1.files = p.files.map (recordedIn [o]) := by
  cases h with
  | generates _ hrecords => cases hrecords.symm.trans hrequest
  | records _ _ hfiles => exact ⟨succeeds_success _, hfiles⟩
  | nothing _ hrecords => cases hrecords.symm.trans hrequest

theorem Does.of_neither (h : Does r o p q out) (hcontent : r.generated? q = none)
    (hrequest : r.records q = false) : ¬ Succeeds out.2 := by
  cases h with
  | generates hgenerated => cases hgenerated.symm.trans hcontent
  | records _ hrecords => cases hrecords.symm.trans hrequest
  | nothing _ _ hfails => exact hfails

/-- No request does two of these things. -/
theorem Does.records_eq_false (h : Does r o p q out) (hcontent : r.generated? q = some content) :
    r.records q = false := by
  cases h with
  | generates _ hrecords => exact hrecords
  | records hgenerated => cases hgenerated.symm.trans hcontent
  | nothing _ hrecords => exact hrecords

theorem does_generating {e : Editor} {bundle : Bundle} {name : String} {next : String → Edit}
    (hbound : r.bound? q = some bundle) (hfind : r.find q.editor = .ok e)
    (hrecords : r.records q = false) (hedit : e.edit bundle = .withValue bundle name next)
    (hmissing : bundle.get? name = none → r.generated? q = none)
    (hvalue : ∀ value, bundle.get? name = some value → ∃ content,
      r.generated? q = some content ∧ Editor.Generates q.editor content p (e.run p bundle)) :
    Does r o p q (r.perform p q) := by
  rw [perform_of_found hbound hfind]
  cases hget : bundle.get? name with
  | none =>
      obtain ⟨message, hrun⟩ := Editor.run_of_missing hedit hget p
      rw [hrun]
      exact .nothing (hmissing hget) hrecords (not_succeeds_failure message)
  | some value =>
      obtain ⟨content, hgenerated, hrun⟩ := hvalue value hget
      exact .generates hgenerated hrecords hrun

/-- **One request.** On a registry that holds the built-in editors, a request does one of these
things. -/
theorem HoldsBuiltins.does (h : r.HoldsBuiltins o) (p : Project) (q : Request) :
    Does r o p q (r.perform p q) := by
  cases hbound : r.bound? q with
  | none =>
      obtain ⟨e, he⟩ := outcome_of_unbound (p := p) hbound
      rw [perform_of_refused he]
      refine .nothing ?_ ?_ (not_succeeds_error e)
      · rw [generated?, hbound, Option.bind_none]
      · rw [Registry.records, hbound, Option.isSome_none, Bool.and_false]
  | some bundle =>
      have hgenerated : r.generated? q = Editor.generated? q.editor bundle := by
        rw [generated?, hbound, Option.bind_some]
      have hrecords : r.records q = decide (q.editor = "ProvenanceEditor") := by
        rw [Registry.records, hbound, Option.isSome_some, Bool.and_true]
      -- the editors are told apart by name, since that is how the registry finds them
      by_cases hadd : q.editor = "AddContentEditor"
      · have hvalue : r.generated? q = bundle.get? "content" := by
          rw [hgenerated, Editor.generated?, if_pos hadd]
        refine does_generating hbound (hadd ▸ h.addContent) ?_ rfl (fun hget => ?_)
          fun content hget => ⟨content, ?_, ?_⟩
        · rw [hrecords, hadd]
          rfl
        · rw [hvalue, hget]
        · rw [hvalue, hget]
        · rw [hadd]
          exact Editor.generates_addContent hget p
      · by_cases hpom : q.editor = "PomReportEditor"
        · have hvalue : r.generated? q =
              (bundle.get? "packageName").map fun _ => generatedContent := by
            rw [hgenerated, Editor.generated?, if_neg hadd, if_pos hpom]
          refine does_generating hbound (hpom ▸ h.pomReport) ?_ rfl (fun hget => ?_)
            fun value hget => ⟨generatedContent, ?_, ?_⟩
          · rw [hrecords, hpom]
            rfl
          · rw [hvalue, hget, Option.map_none]
          · rw [hvalue, hget, Option.map_some]
          · rw [hpom]
            exact Editor.generates_pomReport hget p
        · have hnone : r.generated? q = none := by
            rw [hgenerated, Editor.generated?, if_neg hadd, if_neg hpom]
          by_cases hrecord : q.editor = "ProvenanceEditor"
          · rw [perform_of_found hbound (hrecord ▸ h.recordProvenance)]
            obtain ⟨p', message, hrun, hfiles⟩ := run_recordProvenance_files o p bundle
            rw [hrun]
            exact .records hnone (hrecords.trans (decide_eq_true hrecord)) hfiles
          · obtain ⟨e, he⟩ := h.others q.editor hadd hpom hrecord
            have houtcome : r.outcome p q = .error e := by
              show r.outcome p q = _
              rw [outcome_of_bound hbound]
              show r.find q.editor >>= (fun e => pure (e.run p bundle)) = _
              rw [he]
              rfl
            rw [perform_of_refused houtcome]
            exact .nothing hnone (hrecords.trans (decide_eq_false hrecord)) (not_succeeds_error e)

/-! ## A run of requests -/

/-- The file that a run of requests generates: the first that it may, unless there was one at its
path from the start. -/
def generatedFile (r : Registry) (p : Project) (qs : List Request) : List File :=
  if generatedPath ∈ p.files.map (·.path) then []
  else ((qs.findSome? r.generated?).map (File.mk generatedPath)).toList

theorem generatedFile_of_none (p : Project) (h : r.generated? q = none) :
    r.generatedFile p (qs ++ [q]) = r.generatedFile p qs := by
  rw [generatedFile, List.findSome?_append, List.findSome?_singleton, h, Option.or_none]
  rfl

theorem generatedFile_of_taken (h : generatedPath ∈ p.files.map (·.path) ∨
    ∃ q' ∈ qs, (r.generated? q').isSome = true) :
    r.generatedFile p (qs ++ [q]) = r.generatedFile p qs := by
  rw [generatedFile, generatedFile]
  by_cases hstart : generatedPath ∈ p.files.map (·.path)
  · rw [if_pos hstart, if_pos hstart]
  · have hearlier := h.resolve_left hstart
    rw [← List.findSome?_isSome_iff] at hearlier
    rw [if_neg hstart, if_neg hstart, List.findSome?_append, Option.or_of_isSome hearlier]

theorem generatedFile_of_free (h : ¬ (generatedPath ∈ p.files.map (·.path) ∨
    ∃ q' ∈ qs, (r.generated? q').isSome = true)) (hcontent : r.generated? q = some content) :
    r.generatedFile p qs ++ [⟨generatedPath, content⟩] = r.generatedFile p (qs ++ [q]) := by
  rw [not_or] at h
  have hnone : qs.findSome? r.generated? = none := by
    rw [List.findSome?_eq_none_iff]
    intro q' hq'
    cases hq : r.generated? q' with
    | none => rfl
    | some content => exact absurd ⟨q', hq', hq ▸ rfl⟩ h.2
  rw [generatedFile, generatedFile, if_neg h.1, if_neg h.1, List.findSome?_append,
    List.findSome?_singleton, hnone, hcontent]
  rfl

theorem path_of_mem_generatedFile {f : File} (h : f ∈ r.generatedFile p qs) :
    f.path = generatedPath := by
  rw [generatedFile] at h
  split at h
  · cases h
  · obtain ⟨content, -, rfl⟩ := Option.map_eq_some_iff.mp (Option.mem_toList.mp h)
    rfl

theorem map_recordedIn_generatedFile (os : List Provenance) :
    (r.generatedFile p qs).map (recordedIn os) = r.generatedFile p qs := by
  have hkeep : ∀ f ∈ r.generatedFile p qs, recordedIn os f = f := by
    intro f hf
    apply recordedIn_of_ne
    rw [path_of_mem_generatedFile hf]
    decide
  rw [List.map_congr_left hkeep, List.map_id']

theorem map_path_recordedIn (os : List Provenance) (files : List File) :
    (files.map (recordedIn os)).map (·.path) = files.map (·.path) := by
  rw [List.map_map]
  exact List.map_congr_left fun f _ => recordedIn_path os f

/-- The path of generated files is taken after some requests if it was at the start, or one of them
had its parameters accepted. -/
theorem mem_generatedPath_iff {os : List Provenance}
    (hfiles : p'.files = p.files.map (recordedIn os) ++ r.generatedFile p qs) :
    generatedPath ∈ p'.files.map (·.path) ↔
      generatedPath ∈ p.files.map (·.path) ∨ ∃ q ∈ qs, (r.generated? q).isSome = true := by
  rw [hfiles, List.map_append, List.mem_append, map_path_recordedIn]
  refine or_congr_right' fun hfree => ?_
  rw [generatedFile, if_neg hfree, ← List.findSome?_isSome_iff]
  cases qs.findSome? r.generated? with
  | none => simp
  | some content => simp

/-- **A run of requests** leaves the files of the project in their order, with one record behind the
manifest for each request that has one made, and after them what the run generates. -/
theorem HoldsBuiltins.files_after (h : r.HoldsBuiltins o) (p : Project) (qs : List Request) :
    (r.after p qs).files =
      p.files.map (recordedIn (List.replicate (qs.countP r.records) o)) ++
        r.generatedFile p qs := by
  induction qs using List.reverseRecOn with
  | nil =>
      have hkeep : p.files.map (recordedIn []) = p.files := by
        rw [List.map_congr_left fun f _ => recordedIn_nil f, List.map_id']
      have hnone : r.generatedFile p [] = [] := by
        rw [generatedFile]
        split
        · rfl
        · rfl
      rw [List.countP_nil, List.replicate_zero, hkeep, hnone, List.append_nil]
      rfl
  | append_singleton qs q ih =>
      have hdoes := h.does (r.after p qs) q
      have hpath := mem_generatedPath_iff ih
      rw [after_concat, List.countP_append, List.countP_singleton]
      -- what is generated depends on the path only, which recording leaves as it is
      cases hgenerated : r.generated? q with
      | some content =>
          rw [hdoes.records_eq_false hgenerated, if_neg Bool.false_ne_true, Nat.add_zero]
          by_cases htaken : generatedPath ∈ (r.after p qs).files.map (·.path)
          · rw [hdoes.fails_of_taken hgenerated htaken, generatedFile_of_taken (hpath.mp htaken)]
            exact ih
          · rw [(hdoes.adds_of_free hgenerated htaken).2, ih, List.append_assoc,
              generatedFile_of_free (fun h => htaken (hpath.mpr h)) hgenerated]
      | none =>
          rw [generatedFile_of_none p hgenerated]
          cases hrequest : r.records q with
          | true =>
              rw [(hdoes.of_records hrequest).2, ih, List.map_append, List.map_map,
                map_recordedIn_generatedFile, if_pos rfl, List.replicate_succ']
              congr 1
              exact List.map_congr_left fun f _ => recordedIn_concat _ o f
          | false =>
              rw [hdoes.keeps (hdoes.of_neither hgenerated hrequest)]
              exact ih

/-! ## All or nothing -/

/-- What a request does once some others have been made. -/
structure AllOrNothing (r : Registry) (o : Provenance) (p : Project) (before : List Request)
    (q : Request) : Prop where
  /-- A request that is refused or whose editor fails leaves the project as it is. -/
  keeps : ¬ Succeeds (r.perform (r.after p before) q).2 →
    (r.perform (r.after p before) q).1 = r.after p before
  /-- The first request whose parameters an editor that generates a file accepts puts the file
  last. -/
  first : generatedPath ∉ p.files.map (·.path) → (∀ q' ∈ before, r.generated? q' = none) →
    ∀ content, r.generated? q = some content → Succeeds (r.perform (r.after p before) q).2 ∧
      (r.perform (r.after p before) q).1.files =
        (r.after p before).files ++ [⟨generatedPath, content⟩]
  /-- Every later one fails, and so do all if there is a file at the path from the start. -/
  later : generatedPath ∈ p.files.map (·.path) ∨ (∃ q' ∈ before, (r.generated? q').isSome = true) →
    ∀ content, r.generated? q = some content →
      (r.perform (r.after p before) q).2 = .ok (.failure (takenMessage q.editor))
  /-- Recording provenance always succeeds and changes the manifest only. -/
  records : r.records q = true → Succeeds (r.perform (r.after p before) q).2 ∧
    (r.perform (r.after p before) q).1.files = (r.after p before).files.map (recordedIn [o])
  /-- No other request succeeds. -/
  others : r.generated? q = none → r.records q = false →
    ¬ Succeeds (r.perform (r.after p before) q).2

theorem HoldsBuiltins.allOrNothing (h : r.HoldsBuiltins o) (p : Project) (before : List Request)
    (q : Request) : AllOrNothing r o p before q := by
  have hpath := mem_generatedPath_iff (h.files_after p before)
  have hdoes := h.does (r.after p before) q
  refine ⟨hdoes.keeps, fun hstart hbefore content hcontent => ?_,
    fun htaken content hcontent => ?_, hdoes.of_records, hdoes.of_neither⟩
  · refine hdoes.adds_of_free hcontent fun hmem => ?_
    rcases hpath.mp hmem with hmem | ⟨q', hq', hsome⟩
    · exact hstart hmem
    · rw [hbefore q' hq'] at hsome
      cases hsome
  · rw [hdoes.fails_of_taken hcontent (hpath.mpr htaken)]

/-! ## Parameters that are accepted -/

theorem get?_of_bind {e : Editor} {editor name : String} {raw : Dict String} {bundle : Bundle}
    (hfind : r.find editor = .ok e) (hbind : r.bind editor raw = .ok bundle)
    (hrequired : ∃ d ∈ e.schema.params, d.name = name ∧ d.required = true) :
    ∃ value, raw.get? name = some value ∧ bundle.get? name = some value := by
  rw [bind_of_found hfind] at hbind
  cases hschema : e.schema.bind raw r.catalog with
  | error err =>
      rw [hschema] at hbind
      cases hbind
  | ok b =>
      rw [hschema] at hbind
      obtain rfl := Except.ok.inj hbind
      obtain ⟨d, hd, rfl, hreq⟩ := hrequired
      exact Schema.get?_of_required hschema hd hreq

/-- Whatever raw values bind for the editor that adds a file, it generates the one supplied. -/
theorem HoldsBuiltins.generated?_addContent (h : r.HoldsBuiltins o) {raw : Dict String}
    {bundle : Bundle} (hbind : r.bind "AddContentEditor" raw = .ok bundle) :
    ∃ content, raw.get? "content" = some content ∧
      r.generated? (.invoke "AddContentEditor" raw) = some content := by
  obtain ⟨content, hraw, hget⟩ := get?_of_bind h.addContent hbind
    ⟨_, List.mem_singleton_self _, rfl, rfl⟩
  refine ⟨content, hraw, ?_⟩
  rw [generated?, bound?, hbind]
  exact hget

theorem HoldsBuiltins.generated?_pomReport (h : r.HoldsBuiltins o) {raw : Dict String}
    {bundle : Bundle} (hbind : r.bind "PomReportEditor" raw = .ok bundle) :
    r.generated? (.invoke "PomReportEditor" raw) = some generatedContent := by
  have hvalue : ∃ value, raw.get? "packageName" = some value ∧
      bundle.get? "packageName" = some value :=
    get?_of_bind h.pomReport hbind ⟨_, List.mem_singleton_self _, rfl, rfl⟩
  obtain ⟨packageName, -, hget⟩ := hvalue
  rw [generated?, bound?, hbind]
  show (bundle.get? "packageName").map (fun _ => generatedContent) = some generatedContent
  rw [hget]
  rfl

/-! ## Any run -/

/-- **The built-in editors are all-or-nothing over any run.** After any requests, one that is refused
or fails leaves the project as it is. Of the requests for an editor that generates a file, the first
whose parameters are accepted succeeds if the path was free at the start, and no other one does:
each fails and says that the path is taken. Parameters are accepted if they bind, or if the bundle
that is passed has the value. A request that has provenance recorded succeeds and changes the
manifest only. So the files in the end are those at the start, in their order, with the records
behind the manifest and after them the file that the run generates, if any. -/
theorem HoldsBuiltins.all_or_nothing (h : r.HoldsBuiltins o) (p : Project) :
    (∀ before q, AllOrNothing r o p before q) ∧
    (∀ before q between q', (r.generated? q).isSome = true → (r.generated? q').isSome = true →
      ¬ Succeeds (r.perform (r.after p (before ++ q :: between)) q').2) ∧
    (∀ raw bundle, r.bind "AddContentEditor" raw = .ok bundle → ∃ content,
      raw.get? "content" = some content ∧
      r.generated? (.invoke "AddContentEditor" raw) = some content) ∧
    (∀ raw bundle, r.bind "PomReportEditor" raw = .ok bundle →
      r.generated? (.invoke "PomReportEditor" raw) = some generatedContent) ∧
    ∀ qs, (r.after p qs).files =
      p.files.map (recordedIn (List.replicate (qs.countP r.records) o)) ++
        r.generatedFile p qs := by
  refine ⟨h.allOrNothing p, ?_, fun _ _ => h.generated?_addContent,
    fun _ _ => h.generated?_pomReport, h.files_after p⟩
  intro before q between q' hq hq'
  obtain ⟨content, hcontent⟩ := Option.isSome_iff_exists.mp hq'
  have hmem : q ∈ before ++ q :: between := by simp
  rw [(h.allOrNothing p (before ++ q :: between) q').later (.inr ⟨q, hmem, hq⟩) content hcontent]
  exact not_succeeds_failure _

/-- The library's own registry holds the built-in editors once provenance is registered, whatever
its catalog is. -/
theorem holdsBuiltins_register (catalog : Catalog) (o : Provenance) :
    ∃ r, (withBuiltins catalog).register (.recordProvenance o) = .ok r ∧ r.HoldsBuiltins o := by
  have hbinds : (withBuiltins catalog).BindsFirst _ := bindsFirst_registry catalog .builtins
  have hregister : (withBuiltins catalog).register (.recordProvenance o) = .ok _ :=
    register_of_free (hbinds "ProvenanceEditor")
  have hshows := (hbinds.tryRegister (.recordProvenance o)).shows
  rw [tryRegister, hregister] at hshows
  refine ⟨_, hregister, hshows.find _, hshows.find _, hshows.find _, ?_⟩
  intro name hadd hpom hrecord
  refine ⟨.unknownEditor name, ?_⟩
  have hnone : Editor.first? (Start.builtins.editors ++ [.recordProvenance o]) name = none := by
    simpa [Editor.first?, Start.editors] using ⟨Ne.symm hpom, Ne.symm hadd, Ne.symm hrecord⟩
  have hfind := hshows.find name
  rw [hnone] at hfind
  exact hfind

def sampleRequests : List Request := [
  .run "AddContentEditor" ⟨(∅ : Dict String).insert "content" "one"⟩,
  .run "ProvenanceEditor" ∅,
  .run "AddContentEditor" ⟨(∅ : Dict String).insert "content" "two"⟩]

theorem all_or_nothing_sample :
    ∃ r, (withBuiltins .builtin).register (.recordProvenance ⟨"r", "main", "abc"⟩) = .ok r ∧
      r.HoldsBuiltins ⟨"r", "main", "abc"⟩ ∧
      (r.after Editor.blockProject sampleRequests).files =
        [⟨Manifest.path, recorded Editor.blockManifest [⟨"r", "main", "abc"⟩]⟩,
          ⟨generatedPath, "one"⟩] := by
  obtain ⟨r, hregister, hholds⟩ := holdsBuiltins_register .builtin ⟨"r", "main", "abc"⟩
  refine ⟨r, hregister, hholds, ?_⟩
  rw [(hholds.all_or_nothing Editor.blockProject).2.2.2.2 sampleRequests]
  rfl

end Registry

end SourceEdit
