import SourceEdit.Proofs.Editor.Generation

/-!
# The report on Maven files

The report is written in two parts. The first is on the project as it comes: the number of its files
and those that a path with the last part `pom.xml` leads to. The second is on the project with the
generated file in it, and lists every file with its content.
-/

namespace SourceEdit.Editor

variable {p : Project} {bundle : Bundle} {packageName : String}

/-- The parts of the report, told by the files that the project has before and after the edit. -/
def reportText (packageName : String) (before after : List File) : String :=
  let poms := before.filter fun f => (Text.fields '/' f.path.toList).getLast? = some "pom.xml".toList
  "param=" ++ packageName ++ ",filecount=" ++ toString before.length ++
    ",matchcount=" ++ toString poms.length ++
    String.join (poms.map fun f => ",Matched file=" ++ f.path) ++
    ("\n\nEdited Project containing " ++ toString (before.length + 1) ++ " files:\n" ++
      String.join (after.map fun f => "File [" ++ f.path ++ "] containing [" ++ f.content ++ "]\n"))

/-- **The report is exact.** Where no file has the path of generated files, the report on a project
succeeds, whatever the package name is. It puts the generated file last and says, in this order, the
package name, how many files the project came with, how many of them are Maven files, the path of
each of these in their order, and how many files there are now, each with its content. -/
theorem pomReport_tells_exactly_files (p : Project) (bundle : Bundle) (packageName : String)
    (hvalue : bundle.get? "packageName" = some packageName)
    (hfree : "src/from/typescript" ∉ p.files.map (·.path)) :
    ∃ p' : Project,
      (pomReport .pathExpressions).run p bundle =
        (p', .success (reportText packageName p.files p'.files)) ∧
      p'.files = p.files ++ [⟨"src/from/typescript", "Generated by the POM report editor"⟩] := by
  obtain ⟨p', hrun, hfiles⟩ := run_of_free (e := pomReport .pathExpressions) _
    (edit_pomReport hvalue p) hfree
  have hsize : p'.size = p.files.length + 1 := by
    rw [Project.size, hfiles, List.length_append, List.length_singleton]
  refine ⟨p', ?_, hfiles⟩
  rw [hrun]
  unfold projectListing reportText
  rw [pomSummary, hsize, Project.size, pomFiles]

/-- Files that are named like a Maven file and files that only look so. -/
def lookAlikes : Project where
  files := [⟨"pom.xml", "a"⟩, ⟨"xpom.xml", "b"⟩, ⟨"core/pom.xml", "c"⟩, ⟨"pom.xml/d", "d"⟩,
    ⟨"new\nline/pom.xml", "e"⟩, ⟨"pom.xml\n", "f"⟩]
  nodup := by decide
  valid := by decide

theorem pomReport_tells_lookAlikes :
    ∃ p' : Project,
      (pomReport .pathExpressions).run lookAlikes ⟨(∅ : Dict String).insert "packageName" "com.x"⟩ =
        (p', .success ("param=com.x,filecount=6,matchcount=3,Matched file=pom.xml," ++
          "Matched file=core/pom.xml,Matched file=new\nline/pom.xml" ++
          "\n\nEdited Project containing 7 files:\n" ++
          "File [pom.xml] containing [a]\nFile [xpom.xml] containing [b]\n" ++
          "File [core/pom.xml] containing [c]\nFile [pom.xml/d] containing [d]\n" ++
          "File [new\nline/pom.xml] containing [e]\nFile [pom.xml\n] containing [f]\n" ++
          "File [src/from/typescript] containing [Generated by the POM report editor]\n")) ∧
      p'.files = lookAlikes.files ++
        [⟨"src/from/typescript", "Generated by the POM report editor"⟩] := by
  obtain ⟨p', hrun, hfiles⟩ := pomReport_tells_exactly_files lookAlikes
    ⟨(∅ : Dict String).insert "packageName" "com.x"⟩ "com.x" (by decide) (by decide)
  refine ⟨p', ?_, hfiles⟩
  rw [hrun, hfiles]
  refine congrArg (fun text => (p', EditResult.success text)) ?_
  decide +kernel

end SourceEdit.Editor
