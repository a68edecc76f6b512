import SourceEdit.Edit
import SourceEdit.Manifest.Reader
import SourceEdit.Yaml.Writer

/-!
# Editors

An editor has a description, declares parameters, and edits a project when it is run with values
for them. Whatever goes wrong while it runs becomes a failure result that names the editor and the
cause.
-/

namespace SourceEdit

structure EditorInfo where
  name : String
  description : String
  tags : List String
  deriving Repr, DecidableEq, Inhabited

def EditorInfo.hasTag (info : EditorInfo) (tag : String) : Bool :=
  info.tags.contains tag

structure Editor where
  info : EditorInfo
  /-- The parameters that the editor declares. -/
  schema : Schema := {}
  /-- The edit that it makes with some values. -/
  edit : Bundle → Edit

namespace Editor

/-- Runs an editor: an edit that breaks off is a failure, told with the name of the editor. -/
def run (e : Editor) (p : Project) (bundle : Bundle) : Project × EditResult :=
  match (e.edit bundle).run p with
  | (p', .ok result) => (p', result)
  | (p', .error err) => (p', .failure (e.info.name ++ " failed: " ++ err.message))

/-! ## Generated files -/

def generatedPath : String := "src/from/typescript"

def addContent : Editor where
  info := ⟨"AddContentEditor", "Adds a file with the given content", ["java", "maven"]⟩
  schema := ⟨[{ name := "content", description := "Content", pattern := "$ContentPattern" }]⟩
  edit bundle :=
    .withValue bundle "content" fun content =>
      .add generatedPath content (.orBreakOff fun _ =>
        .inspect fun p =>
          .finish (.success ("Edited Project now containing " ++ toString p.size ++ " files")))

/-! ## Reports -/

def generatedContent : String := "Generated by the POM report editor"

def pomQuery : String := "/*:file[name='pom.xml']"

def pomSummary (packageName : String) (p : Project) (found : List File) : String :=
  "param=" ++ packageName ++ ",filecount=" ++ toString p.size ++
    ",matchcount=" ++ toString found.length ++
    String.join (found.map fun f => ",Matched file=" ++ f.path)

def projectListing (p : Project) : String :=
  "\n\nEdited Project containing " ++ toString p.size ++ " files:\n" ++
    String.join (p.files.map fun f =>
      "File [" ++ f.path ++ "] containing [" ++ f.content ++ "]\n")

/-- Reports the Maven files of a project and adds a generated file. -/
def pomReport (engine : QueryEngine) : Editor where
  info := ⟨"PomReportEditor", "Lists Maven POM files and adds a generated source file",
    ["java", "maven"]⟩
  schema := ⟨[{ name := "packageName", description := "The Java package name",
                displayName := "Java Package" }]⟩
  edit bundle :=
    .withValue bundle "packageName" fun packageName =>
      .withSelection engine pomQuery fun found =>
        .inspect fun p =>
          .add generatedPath generatedContent (.orBreakOff fun _ =>
            .inspect fun p' =>
              .finish (.success (pomSummary packageName p found ++ projectListing p')))

/-! ## Provenance -/

def provenanceRecord (origin : Provenance) : String :=
  Yaml.renderRecord [("repo", origin.repo), ("branch", origin.branch), ("sha", origin.sha)]

/-- A manifest with the record as one more document. -/
def withProvenance (content : String) (origin : Provenance) : String :=
  content ++ "\n---\n" ++ provenanceRecord origin

/-- Appends a record of where a project comes from to its manifest, if it has one. -/
def recordProvenance (origin : Provenance) : Editor where
  info := ⟨"ProvenanceEditor", "Records repository, branch, and commit in the manifest",
    ["provenance"]⟩
  edit _ :=
    .inspect fun p =>
      match p.find? Manifest.path with
      | none => .finish (.success ("No " ++ Manifest.path ++ " found; project unchanged"))
      | some file =>
        .update Manifest.path (withProvenance file.content origin) (.orBreakOff fun _ =>
          .finish (.success ("Recorded " ++ origin.repo ++ "@" ++ origin.branch ++ " (" ++
            origin.sha ++ ") in " ++ Manifest.path)))

end Editor

end SourceEdit
