import SourceEdit.Edit

/-!
# Scripts

A script is a list of actions. As an edit it carries them out one after another, until one of them
ends the edit or is refused.
-/

namespace SourceEdit

inductive Action where
  | add (path content : String)
  | update (path content : String)
  | remove (path : String)
  /-- Ends the edit with the paths that an expression selects. -/
  | query (expression : String)
  /-- Ends the edit by asking for a value that is not there. -/
  | require (name : String)
  | engineFail (message : String)
  | fail (message : String) (contexts : List String)
  | reportFailure (message : String)
  | succeed (message : String)
  deriving Repr, DecidableEq, Inhabited

def Edit.ofActions : List Action → Edit
  | [] => .finish (.success "end of script")
  | action :: rest =>
    match action with
    | .add path content => .add path content (orBreakOff fun _ => ofActions rest)
    | .update path content => .update path content (orBreakOff fun _ => ofActions rest)
    | .remove path => .remove path (orBreakOff fun _ => ofActions rest)
    | .query expression =>
      withSelection .pathExpressions expression fun found =>
        .finish (.success (",".intercalate (found.map (·.path))))
    | .require name => withValue ∅ name fun _ => ofActions rest
    | .engineFail message => .breakOff (.query (.engine message))
    | .fail message contexts => .breakOff (.other message contexts)
    | .reportFailure message => .finish (.failure message)
    | .succeed message => .finish (.success message)

end SourceEdit
