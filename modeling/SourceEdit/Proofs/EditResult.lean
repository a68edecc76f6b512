import SourceEdit.EditResult
import SourceEdit.Proofs.Json.Written

/-!
# Results survive their texts

The text of a result is written JSON, so it is read back as it was, whatever characters the message
has. So the text of a result says which result it is.
-/

namespace SourceEdit

theorem Status.ofWord?_word (s : Status) : Status.ofWord? s.word = some s := by
  cases s <;> rfl

namespace EditResult

def fields (r : EditResult) : Data :=
  .record [("status", .text r.status.word), ("message", .text r.message)]

theorem toText_eq_write (r : EditResult) :
    r.toText = String.ofList (Json.format.write r.fields) := by
  have hstatus : Json.format.quoted "status" = "\"status\"".toList := by decide
  have hmessage : Json.format.quoted "message" = "\"message\"".toList := by decide
  have hmark : Json.format.mark = ':' := rfl
  apply String.ext
  simp [toText, fields, Data.Format.write, Data.Format.writeFields, hstatus, hmessage, hmark,
    Json.toList_quote]

theorem read?_toText (r : EditResult) : Json.read? r.toText = some r.fields := by
  rw [toText_eq_write]
  apply Json.read?_write
  intro f hf
  rcases List.mem_cons.mp hf with rfl | hf
  · trivial
  · rw [List.mem_singleton.mp hf]
    trivial

theorem ofText?_toText (r : EditResult) : ofText? r.toText = some r := by
  have hstatus : Status.ofData? (.text r.status.word) = some r.status := r.status.ofWord?_word
  rw [ofText?, read?_toText]
  simp [fields, ofData?, Data.members?, List.lookup_cons, hstatus, Data.text?]

/-- **A result survives its text.** Reading the text of any result gives back its status and its
message, whatever characters that has; so no two results have the same text. -/
theorem toText_round_trip :
    (∀ r, ofText? (toText r) = some r) ∧ Function.Injective toText := by
  refine ⟨ofText?_toText, ?_⟩
  intro r r' htext
  have hread : some r = some r' := by
    rw [← ofText?_toText r, ← ofText?_toText r', htext]
  exact Option.some.inj hread

end EditResult

end SourceEdit
