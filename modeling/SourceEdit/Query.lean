import SourceEdit.Glob
import SourceEdit.Project
import SourceEdit.Text.Blank

/-!
# Queries

A query selects files of a project by a path expression: a slash, directory steps, a test of the
name with the mark `:file`, and any number of conditions in brackets. Steps and name test are
globs; the file may lie at any depth below the steps.
-/

namespace SourceEdit

inductive QueryFault where
  | noLeadingSlash
  | noFileStep
  | noNameTest
  | emptyStep
  | badGlob (error : GlobError)
  | unexpectedText (text : String)
  | unknownAttribute (name : String)
  deriving Repr, DecidableEq

def QueryFault.message : QueryFault → String
  | .noLeadingSlash => "must start with '/'"
  | .noFileStep => "last step must select ':file'"
  | .noNameTest => "missing name test before ':file'"
  | .emptyStep => "empty path step"
  | .badGlob error => error.message
  | .unexpectedText text => "unexpected text '" ++ text ++ "'"
  | .unknownAttribute name => "unknown attribute '" ++ name ++ "'"

inductive QueryError where
  | invalidExpression (expression : String) (fault : QueryFault)
  /-- The engine that evaluates queries broke down. -/
  | engine (message : String)
  deriving Repr, DecidableEq

def QueryError.message : QueryError → String
  | .invalidExpression expression fault =>
    "invalid path expression '" ++ expression ++ "': " ++ fault.message
  | .engine message => "query engine failure: " ++ message

inductive Condition where
  | name (value : String)
  | path (value : String)
  | extension (value : String)
  deriving Repr, DecidableEq

def Condition.holds (f : File) : Condition → Bool
  | .name value => f.name == value
  | .path value => f.path == value
  | .extension value => f.extension? == some value

/-- A query that has been read: a glob for paths, and conditions that all have to hold. -/
structure Query where
  scope : Glob
  conditions : List Condition

namespace Query

/-! ## Conditions -/

/-- The attribute and the value of a condition, if one starts here, and what follows it. -/
def condition? : List Char → Option (List Char × List Char × List Char)
  | '[' :: cs =>
    let cs := cs.dropWhile Text.isBlank
    let name := cs.takeWhile fun c => 'a' ≤ c && c ≤ 'z'
    let cs := (cs.dropWhile fun c => 'a' ≤ c && c ≤ 'z').dropWhile Text.isBlank
    if name.isEmpty then none
    else
      match cs with
      | '=' :: cs =>
        match cs.dropWhile Text.isBlank with
        | '\'' :: cs =>
          let value := cs.takeWhile (· != '\'')
          match cs.dropWhile (· != '\'') with
          | _ :: cs =>
            match cs.dropWhile Text.isBlank with
            | ']' :: rest => some (name, value, rest)
            | _ => none
          | [] => none
        | _ => none
      | _ => none
  | _ => none

def checkGap (gap : List Char) : Except QueryFault Unit :=
  let text := Text.trim gap
  if text.isEmpty then .ok () else .error (.unexpectedText (String.ofList text))

def conditionOf (name value : String) : Except QueryFault Condition :=
  match name with
  | "name" => .ok (.name value)
  | "path" => .ok (.path value)
  | "extension" => .ok (.extension value)
  | other => .error (.unknownAttribute other)

/-- Reads conditions from left to right. `gap` is the text since the last of them, in reverse;
the length of the text bounds the number of steps. -/
def conditionsFrom (gap : List Char) : Nat → List Char → Except QueryFault (List Condition)
  | _, [] => do
    checkGap gap.reverse
    return []
  | 0, _ => .ok []
  | fuel + 1, c :: cs =>
    match condition? (c :: cs) with
    | none => conditionsFrom (c :: gap) fuel cs
    | some (name, value, rest) => do
      checkGap gap.reverse
      let first ← conditionOf (String.ofList name) (String.ofList value)
      return first :: (← conditionsFrom [] fuel rest)

def readConditions (text : List Char) : Except QueryFault (List Condition) :=
  conditionsFrom [] text.length text

/-! ## Paths -/

def fileMark : List Char := ":file".toList

def pathParts (cs : List Char) : Except QueryFault (List (List Char) × List Char) :=
  let parts := Text.fields '/' cs
  let steps := parts.dropLast
  let last := parts.getLastD []
  if !fileMark.isSuffixOf last then .error .noFileStep
  else
    let nameTest := last.take (last.length - fileMark.length)
    if nameTest.isEmpty then .error .noNameTest
    else if steps.any List.isEmpty then .error .emptyStep
    else .ok (steps, nameTest)

/-- The glob for paths: the name test at any depth below the steps. -/
def scopeText (steps : List (List Char)) (nameTest : List Char) : String :=
  String.ofList (Text.join '/' (steps ++ [['*', '*'], nameTest]))

def read (expression : String) : Except QueryFault Query :=
  match Text.trim expression.toList with
  | '/' :: body => do
    let (steps, nameTest) ← pathParts (body.takeWhile (· != '['))
    match Glob.ofString true false (scopeText steps nameTest) with
    | .error e => .error (.badGlob e)
    | .ok scope => return { scope, conditions := ← readConditions (body.dropWhile (· != '[')) }
  | _ => .error .noLeadingSlash

def ofString (expression : String) : Except QueryError Query :=
  (read expression).mapError (.invalidExpression expression)

def selects (q : Query) (f : File) : Bool :=
  q.scope.isMatch f.path && q.conditions.all (·.holds f)

def evaluate (q : Query) (p : Project) : List File :=
  p.files.filter q.selects

end Query

/-- What evaluates queries: the rules above, or an engine that is out of order. -/
inductive QueryEngine where
  | pathExpressions
  | broken (message : String)
  deriving Repr, DecidableEq, Inhabited

def QueryEngine.evaluate (engine : QueryEngine) (p : Project) (expression : String) :
    Except QueryError (List File) :=
  match engine with
  | .broken message => .error (.engine message)
  | .pathExpressions => do return (← Query.ofString expression).evaluate p

end SourceEdit
