import SourceEdit.EditResult
import SourceEdit.Parameter
import SourceEdit.Query

/-!
# Edits

An edit is a program over a project. It may look at the project and ask for changes, and goes on
with what it learns from each; it ends with a result or breaks off with an error. It changes the
project in no other way, so that whatever holds of the three kinds of change holds of every edit.
-/

namespace SourceEdit

inductive EditError where
  | project (error : ProjectError)
  | binding (error : BindError)
  | query (error : QueryError)
  /-- Any other cause, with the contexts in which it arose, the outermost last. -/
  | other (message : String) (contexts : List String)
  deriving Repr, DecidableEq

/-- The cause of an error; a chain of contexts is told from the outermost inwards. -/
def EditError.message : EditError → String
  | .project e => e.message
  | .binding e => e.message
  | .query e => e.message
  | .other message contexts => ": ".intercalate (contexts.reverse ++ [message])

/-- What an edit does next, and how it goes on. -/
inductive Edit where
  | finish (result : EditResult)
  | breakOff (error : EditError)
  /-- Looks at the project. -/
  | inspect (next : Project → Edit)
  | add (path content : String) (next : Except ProjectError Unit → Edit)
  | update (path content : String) (next : Except ProjectError Unit → Edit)
  | remove (path : String) (next : Except ProjectError File → Edit)

/-- A project after an edit, and how the edit ended. What was changed before an error stays
changed. -/
abbrev Outcome := Project × Except EditError EditResult

namespace Edit

/-- Runs an edit on a project. A change that is refused leaves the project as it is. -/
def run : Edit → Project → Outcome
  | .finish result, p => (p, .ok result)
  | .breakOff error, p => (p, .error error)
  | .inspect next, p => (next p).run p
  | .add path content next, p =>
    match p.add path content with
    | .ok p' => (next (.ok ())).run p'
    | .error e => (next (.error e)).run p
  | .update path content next, p =>
    match p.update path content with
    | .ok p' => (next (.ok ())).run p'
    | .error e => (next (.error e)).run p
  | .remove path next, p =>
    match p.remove path with
    | .ok (file, p') => (next (.ok file)).run p'
    | .error e => (next (.error e)).run p

/-- Goes on after a change that was made, and breaks off after one that was refused. -/
def orBreakOff (next : α → Edit) : Except ProjectError α → Edit
  | .ok a => next a
  | .error e => .breakOff (.project e)

def withValue (bundle : Bundle) (name : String) (next : String → Edit) : Edit :=
  match bundle.require name with
  | .ok value => next value
  | .error e => .breakOff (.binding e)

def withSelection (engine : QueryEngine) (expression : String) (next : List File → Edit) : Edit :=
  .inspect fun p =>
    match engine.evaluate p expression with
    | .ok found => next found
    | .error e => .breakOff (.query e)

end Edit

end SourceEdit
