import SourceEdit.Json.Reader

/-!
# Results of edits

An edit ends in success or failure, with a message for its user either way. A result is passed on
as a JSON text of its status and message.
-/

namespace SourceEdit

inductive Status where
  | success
  | failure
  deriving Repr, DecidableEq, Inhabited

structure EditResult where
  status : Status
  message : String
  deriving Repr, DecidableEq, Inhabited

namespace EditResult

def success (message : String) : EditResult := ⟨.success, message⟩

def failure (message : String) : EditResult := ⟨.failure, message⟩

def isSuccess (r : EditResult) : Bool := r.status == .success

end EditResult

namespace Status

def word : Status → String
  | .success => "success"
  | .failure => "failure"

def ofWord? : String → Option Status
  | "success" => some .success
  | "failure" => some .failure
  | _ => none

/-- Reads a status: its word, or a record with nothing under its word. -/
def ofData? : Data → Option Status
  | .text word => ofWord? word
  | .record [(word, .null)] => ofWord? word
  | _ => none

end Status

namespace EditResult

def ofData? (d : Data) : Option EditResult := do
  let member ← d.members? .refused ["status", "message"]
  let status ← Status.ofData? (← member "status")
  let message ← Data.text? (← member "message")
  return { status, message }

/-- The JSON text of a result: the status first, and no blanks between its parts. -/
def toText (r : EditResult) : String :=
  "\x7b\"status\":" ++ Json.quote r.status.word ++ ",\"message\":" ++ Json.quote r.message ++
    "\x7d"

def ofText? (text : String) : Option EditResult := do
  ofData? (← Json.read? text)

end EditResult

end SourceEdit
