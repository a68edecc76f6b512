import SourceEdit.Editor
import SourceEdit.Proofs.Project.Ordered
import SourceEdit.Proofs.Query.Filter

/-!
# Editors that generate a file

The two editors that generate a file ask for the same path. Given the value of its parameter, either
of them puts its file last, or finds the path taken and leaves the project as it is; without that
value it breaks off before it changes anything.
-/

namespace SourceEdit

variable {p : Project} {bundle : Bundle} {content : String}

theorem Edit.run_add_report (p : Project) (path content : String) (report : Project → String) :
    (Edit.add path content (.orBreakOff fun _ =>
        .inspect fun p' => .finish (.success (report p')))).run p =
      match p.add path content with
      | .ok p' => (p', .ok (.success (report p')))
      | .error e => (p, .error (.project e)) := by
  rw [Edit.run]
  cases p.add path content with
  | ok p' => rfl
  | error e => rfl

namespace Editor

def takenMessage (name : String) : String :=
  name ++ " failed: " ++ (ProjectError.duplicatePath generatedPath).message

/-- What an editor may do that generates a file with some content: the file comes last, or its path
is taken and nothing changes. -/
inductive Generates (name content : String) (p : Project) : Project × EditResult → Prop
  | added {p' : Project} {message : String} (hfree : generatedPath ∉ p.files.map (·.path))
      (hfiles : p'.files = p.files ++ [⟨generatedPath, content⟩]) :
      Generates name content p (p', .success message)
  | taken (htaken : generatedPath ∈ p.files.map (·.path)) :
      Generates name content p (p, .failure (takenMessage name))

theorem wellFormed_generatedPath : WellFormedPath generatedPath := by decide +kernel

/-- Where the path is free, an editor whose edit adds a file and reports ends with the report, which
is on the project with the file in it. -/
theorem run_of_free {e : Editor} (report : Project → String)
    (hedit : (e.edit bundle).run p = (Edit.add generatedPath content (.orBreakOff fun _ =>
      .inspect fun p' => .finish (.success (report p')))).run p)
    (hfree : generatedPath ∉ p.files.map (·.path)) :
    ∃ p', e.run p bundle = (p', .success (report p')) ∧
      p'.files = p.files ++ [⟨generatedPath, content⟩] := by
  obtain ⟨p', hadd, hfiles⟩ := Project.add_of_new wellFormed_generatedPath hfree content
  refine ⟨p', ?_, hfiles⟩
  rw [run, hedit, Edit.run_add_report, hadd]

theorem generates_of_edit {e : Editor} (report : Project → String)
    (hedit : (e.edit bundle).run p = (Edit.add generatedPath content (.orBreakOff fun _ =>
      .inspect fun p' => .finish (.success (report p')))).run p) :
    Generates e.info.name content p (e.run p bundle) := by
  by_cases htaken : generatedPath ∈ p.files.map (·.path)
  · rw [run, hedit, Edit.run_add_report, Project.add_of_taken wellFormed_generatedPath htaken]
    exact .taken htaken
  · obtain ⟨p', hrun, hfiles⟩ := run_of_free report hedit htaken
    rw [hrun]
    exact .added htaken hfiles

theorem require_of_get? {name value : String} (h : bundle.get? name = some value) :
    bundle.require name = .ok value := by
  rw [Bundle.require, h]

theorem generates_addContent (h : bundle.get? "content" = some content) (p : Project) :
    Generates "AddContentEditor" content p (addContent.run p bundle) := by
  apply generates_of_edit (e := addContent)
    fun p' => "Edited Project now containing " ++ toString p'.size ++ " files"
  simp only [addContent, Edit.withValue, require_of_get? h]

/-- The Maven files of a project, in its order: those whose paths have the last part `pom.xml`. -/
def pomFiles (p : Project) : List File :=
  p.files.filter fun f => (Text.fields '/' f.path.toList).getLast? = some "pom.xml".toList

/-- The query for Maven files finds them, wherever they lie. -/
theorem evaluate_pomQuery (p : Project) :
    QueryEngine.pathExpressions.evaluate p pomQuery = .ok (pomFiles p) := by
  have hquery : pomQuery = "/*:file[name='" ++ "pom.xml" ++ "']" := rfl
  rw [hquery]
  exact Query.evaluate_name p (by decide)

theorem edit_pomReport {packageName : String}
    (h : bundle.get? "packageName" = some packageName) (p : Project) :
    ((pomReport .pathExpressions).edit bundle).run p =
      (Edit.add generatedPath generatedContent (.orBreakOff fun _ => .inspect fun p' =>
        .finish (.success (pomSummary packageName p (pomFiles p) ++ projectListing p')))).run p := by
  simp only [pomReport, Edit.withValue, require_of_get? h, Edit.withSelection, Edit.run,
    evaluate_pomQuery]

theorem generates_pomReport {packageName : String}
    (h : bundle.get? "packageName" = some packageName) (p : Project) :
    Generates "PomReportEditor" generatedContent p
      ((pomReport .pathExpressions).run p bundle) :=
  generates_of_edit (e := pomReport .pathExpressions) _ (edit_pomReport h p)

theorem run_of_missing {e : Editor} {name : String} {next : String → Edit}
    (hedit : e.edit bundle = .withValue bundle name next) (h : bundle.get? name = none)
    (p : Project) : ∃ message, e.run p bundle = (p, .failure message) := by
  have hrequire : bundle.require name = .error ⟨name, .missingRequired⟩ := by
    rw [Bundle.require, h]
  rw [run, hedit, Edit.withValue, hrequire]
  exact ⟨_, rfl⟩

end Editor

end SourceEdit
