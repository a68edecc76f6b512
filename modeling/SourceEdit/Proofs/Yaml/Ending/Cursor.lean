import SourceEdit.Proofs.Outcome
import SourceEdit.Proofs.Yaml.Marker.Cursor

/-!
# Cursors of a text that gets the line of a marker

A text ends, or the line of a document marker is put behind it. As long as a reader does not come
to the end it goes the same way in both (`Kept`); at the end the line feed in front of the marker
is one character more to read. `Meets` relates where two readings of one thing stop: at the same
place, or one at the end of the text and the other at the marker.
-/

namespace SourceEdit.Yaml.Cursor

open Outcome (Follows)

def marked (c : Cursor) : Cursor := c.extend ('\n' :: markerLine)

/-- The same place in the longer text. -/
def Kept (c c' : Cursor) : Prop := c' = c.marked

/-- The same place, or the end of the text and the marker. -/
def Meets (c c' : Cursor) : Prop := c' = c.marked ∨ (c.rest = [] ∧ c'.AtMarker)

variable {c c' : Cursor} {x : Char} {p : Char → Bool} {n : Nat}

@[simp] theorem marked_rest (c : Cursor) : c.marked.rest = c.rest ++ '\n' :: markerLine := rfl

@[simp] theorem marked_column (c : Cursor) : c.marked.column = c.column := rfl

theorem length_marked (c : Cursor) : c.marked.rest.length = c.rest.length + 5 := by
  rw [marked_rest, List.length_append]
  rfl

theorem rest_eq_nil_iff : c.rest = [] ↔ c.peek = none := by
  rw [peek, List.head?_eq_none_iff]

/-! ## Looking ahead -/

theorem peek_marked (c : Cursor) : c.marked.peek = some (c.peek.getD '\n') := by
  rw [peek, peek, marked_rest]
  cases c.rest <;> rfl

theorem peek_marked_of_some (hx : c.peek = some x) : c.marked.peek = some x := by
  rw [peek_marked, hx]
  rfl

theorem peek_marked_of_end (h : c.rest = []) : c.marked.peek = some '\n' := by
  rw [peek_marked, rest_eq_nil_iff.mp h]
  rfl

theorem isBlankOrEnd_peek_marked (c : Cursor) :
    isBlankOrEnd c.marked.peek = isBlankOrEnd c.peek := by
  rw [peek_marked]
  cases c.peek <;> rfl

theorem isBreakOrEnd_peek_marked (c : Cursor) :
    isBreakOrEnd c.marked.peek = isBreakOrEnd c.peek := by
  rw [peek_marked]
  cases c.peek <;> rfl

theorem any_peek_marked (c : Cursor) (hp : p '\n' = false) :
    c.marked.peek.any p = c.peek.any p := by
  rw [peek_marked]
  cases c.peek with
  | none => exact hp
  | some x => rfl

theorem peek_marked_beq (c : Cursor) (hx : x ≠ '\n') :
    (c.marked.peek == some x) = (c.peek == some x) := by
  rw [peek_marked]
  cases c.peek with
  | none => exact beq_eq_false_iff_ne.mpr fun h => hx (Option.some.inj h).symm
  | some y => rfl

theorem peek_skip (hx : c.peek = some x) : c.skip.peek = c.peekAt 1 := by
  obtain ⟨rest, hrest⟩ := peek_eq_some_iff.mp hx
  simp only [skip, peek, peekAt, hrest]
  cases rest <;> rfl

theorem skip_marked (hx : c.peek = some x) : c.marked.skip = c.skip.marked := by
  obtain ⟨rest, hrest⟩ := peek_eq_some_iff.mp hx
  simp only [skip, marked, extend, hrest, List.cons_append]

/-- The character after the next one, which may be the line feed. -/
theorem peekAt_one_marked (hx : c.peek = some x) : c.marked.peekAt 1 = c.skip.marked.peek := by
  rw [← skip_marked hx]
  exact (peek_skip (peek_marked_of_some hx)).symm

theorem atMarker_marked (c : Cursor) {mark : Char} (hmark : mark ≠ '\n') :
    c.marked.atMarker mark = c.atMarker mark := by
  have hline : '\n' ≠ mark := hmark.symm
  unfold atMarker peek peekAt
  rw [marked_rest, marked_column]
  match c.rest with
  | [] => simp [hline]
  | [_] => simp [hline]
  | [_, _] => simp [hline]
  | [_, _, _] => rfl
  | _ :: _ :: _ :: _ :: _ => rfl

theorem atDocumentMarker_marked (c : Cursor) :
    c.marked.atDocumentMarker = c.atDocumentMarker := by
  rw [atDocumentMarker, atDocumentMarker, atMarker_marked c (by decide),
    atMarker_marked c (by decide)]

/-! ## Stepping over characters -/

theorem skipMany_marked (h : n ≤ c.rest.length) : c.marked.skipMany n = (c.skipMany n).marked :=
  skipMany_extend h

theorem spanText_marked (c : Cursor) (hp : p '\n' = false) :
    c.marked.spanText p = c.spanText p :=
  takeWhile_lineEnd hp c.rest markerLine

theorem skipWhile_marked (c : Cursor) (hp : p '\n' = false) :
    c.marked.skipWhile p = (c.skipWhile p).marked := by
  rw [skipWhile_eq_skipMany, skipWhile_eq_skipMany, spanText_marked c hp]
  exact skipMany_marked (length_takeWhile_le c.rest)

theorem skipComment_marked (c : Cursor) : c.marked.skipComment = c.skipComment.marked := by
  rw [skipComment, skipComment, peek_marked_beq c (by decide)]
  split
  · exact skipWhile_marked c (by decide)
  · rfl

/-! ## Line ends -/

theorem breakText_marked (hx : c.peek = some x) : c.marked.breakText = c.breakText := by
  obtain ⟨rest, hrest⟩ := peek_eq_some_iff.mp hx
  simp only [breakText, marked_rest, hrest, List.cons_append]

theorem skipBreak_of_end (h : c.rest = []) : c.skipBreak = c := by
  unfold skipBreak
  rw [h]

/-- The line feed in front of the marker. -/
theorem atMarker_of_end (h : c.rest = []) : c.marked.skipBreak.AtMarker := by
  have hrest : c.marked.rest = '\n' :: '-' :: ['-', '-', '\n'] := by
    rw [marked_rest, h]
    rfl
  rw [skipBreak_cons hrest]
  exact ⟨rfl, rfl⟩

theorem length_skipBreak_lt (hx : c.peek = some x) (hbreak : isBreak x = true) :
    c.skipBreak.rest.length < c.rest.length := by
  obtain ⟨rest, hrest⟩ := peek_eq_some_iff.mp hx
  unfold skipBreak
  rw [hrest]
  split
  · next heq => rw [heq]; simp only [List.length_cons]; omega
  · next heq =>
    obtain ⟨rfl, rfl⟩ := List.cons.inj heq
    rw [if_pos hbreak]
    exact Nat.lt_succ_self _
  · next heq => exact nomatch heq

theorem length_skip_lt (hx : c.peek = some x) : c.skip.rest.length < c.rest.length := by
  obtain ⟨rest, hrest⟩ := peek_eq_some_iff.mp hx
  rw [skip, hrest]
  exact Nat.lt_succ_self _

/-- A line end is stepped over in both texts. A carriage return at the end of the text takes the
line feed along, and where the text ends, the line feed is stepped over alone. -/
theorem skipBreak_meets (c : Cursor) : Meets c.skipBreak c.marked.skipBreak := by
  obtain ⟨rest, index, line, column⟩ := c
  match rest with
  | [] => exact Or.inr ⟨rfl, atMarker_of_end rfl⟩
  | [x] =>
      by_cases hreturn : x = '\r'
      · subst hreturn
        exact Or.inr ⟨rfl, rfl, rfl⟩
      · refine Or.inl ?_
        have hlong : (marked ⟨[x], index, line, column⟩).rest = x :: '\n' :: markerLine := rfl
        rw [skipBreak_cons hlong, if_neg fun hpair => hreturn hpair.1]
        unfold skipBreak
        simp only
        split <;> rfl
  | x :: y :: rest =>
      refine Or.inl ?_
      have hlong : (marked ⟨x :: y :: rest, index, line, column⟩).rest =
          x :: y :: (rest ++ '\n' :: markerLine) := rfl
      have hshort : (Cursor.mk (x :: y :: rest) index line column).rest = x :: y :: rest := rfl
      rw [skipBreak_cons hlong, skipBreak_cons hshort]
      split
      · rfl
      · split <;> rfl

theorem Meets.kept (h : Meets c c') (hne : c.rest ≠ []) : c' = c.marked :=
  h.resolve_right fun hend => hne hend.1

theorem finishLine?_meets (c : Cursor) : Follows Meets c.finishLine? c.marked.finishLine? := by
  unfold finishLine?
  dsimp only
  rw [skipWhile_marked c (by decide), skipComment_marked, isBreakOrEnd_peek_marked]
  exact Follows.ite (fun _ => Follows.some (skipBreak_meets _)) fun _ => Follows.none

end SourceEdit.Yaml.Cursor
