import SourceEdit.Proofs.Yaml.Ending.Cursor
import SourceEdit.Proofs.Yaml.Marker.Properties

/-!
# Properties and directives at the end of a text

Names and tags may run to the end of the text: a line feed is none of their characters. A directive
takes up its line, and the line feed if its line has not ended.
-/

namespace SourceEdit.Yaml

open Cursor (Kept Meets marked length_marked skip_marked skipMany_marked peek_marked
  peek_marked_of_some peek_marked_beq skipWhile_marked spanText_marked isBlankOrEnd_peek_marked
  any_peek_marked)
open Outcome (Follows Beside)

variable {c : Cursor} {x : Char} {m n : Nat}

theorem peek_marked_bne (c : Cursor) (hx : x ≠ '\n') :
    (c.marked.peek != some x) = (c.peek != some x) := by
  rw [bne, bne, peek_marked_beq c hx]

/-! ## Names -/

theorem anchorName?_marked (hx : c.peek = some x) :
    Follows (Beside Kept) (anchorName? c) (anchorName? c.marked) := by
  unfold anchorName?
  dsimp only
  rw [skip_marked hx, spanText_marked c.skip (by decide), skipWhile_marked c.skip (by decide),
    isBlankOrEnd_peek_marked, any_peek_marked _ (by decide)]
  exact Follows.ite (fun _ => Follows.none) fun _ => Follows.some ⟨rfl, rfl⟩

/-! ## Tags -/

theorem tagText?_marked {verbatim : Bool} (hnm : n ≤ m) :
    Follows (Beside Kept) (tagText? verbatim n c) (tagText? verbatim m c.marked) := by
  induction n generalizing c m with
  | zero => exact Follows.none
  | succ n ih =>
      obtain ⟨m, rfl⟩ : ∃ k, m = k + 1 := ⟨m - 1, by omega⟩
      -- the text of a tag stops at the line end as it does at the end of the text
      have hstop : Follows (Beside Kept) (some (([] : List Char), c)) (some ([], c.marked)) :=
        Follows.some ⟨rfl, rfl⟩
      have hnext : ∀ (c' : Cursor) (front : List Char), Follows (Beside Kept)
          ((tagText? verbatim n c').bind fun r => some (front ++ r.1, r.2))
          ((tagText? verbatim m c'.marked).bind fun r => some (front ++ r.1, r.2)) := by
        intro c' front
        refine Follows.bind (ih (Nat.le_of_succ_le_succ hnm)) ?_
        rintro r r' ⟨htext, hkept⟩
        exact Follows.some ⟨congrArg (front ++ ·) htext, hkept⟩
      rw [tagText?, tagText?, peek_marked]
      cases hx : c.peek with
      | none =>
          have hfeed : isTagChar verbatim '\n' = false := by cases verbatim <;> decide
          dsimp only [Option.getD_none]
          rw [hfeed]
          exact hstop
      | some x =>
          dsimp only [Option.getD_some]
          refine Follows.ite (fun _ => ?_) fun _ => hstop
          refine Follows.ite (fun _ => ?_) fun _ => ?_
          · rw [Cursor.marked_rest, percentChar?_lineEnd]
            cases hread : percentChar? c.rest with
            | none => exact Follows.none
            | some p =>
                obtain ⟨chars, rest⟩ := p
                have hshorter := length_of_percentChar? hread
                have hcount : (c.rest ++ '\n' :: markerLine).length -
                    (rest ++ '\n' :: markerLine).length = c.rest.length - rest.length := by
                  simp only [List.length_append]
                  omega
                have hskip : c.marked.skipMany (c.rest.length - rest.length) =
                    (c.skipMany (c.rest.length - rest.length)).marked :=
                  skipMany_marked (Nat.sub_le _ _)
                simp only [Option.map_some, Option.bind_eq_bind, Option.bind_some, Prod.map, id,
                  hcount, hskip]
                exact hnext _ chars
          · rw [skip_marked hx]
            exact hnext c.skip [x]

theorem tagHandle?_marked (c : Cursor) :
    Follows (Beside Kept) (tagHandle? c) (tagHandle? c.marked) := by
  unfold tagHandle?
  rw [peek_marked_bne c (by decide)]
  refine Follows.ite (fun _ => Follows.none) fun hmark => ?_
  have hx : c.peek = some '!' :=
    Decidable.byContradiction fun hne => hmark (bne_iff_ne.mpr hne)
  dsimp only
  rw [skip_marked hx, spanText_marked c.skip (by decide), skipWhile_marked c.skip (by decide),
    peek_marked_beq _ (by decide)]
  refine Follows.ite (fun hclose => ?_) fun _ => Follows.some ⟨rfl, rfl⟩
  exact Follows.some ⟨rfl, skip_marked (eq_of_beq hclose)⟩

theorem tag?_marked {flow : Bool} (hx : c.peek = some x) :
    Follows (Beside Kept) (tag? flow c) (tag? flow c.marked) := by
  have hcomma : ',' ≠ '\n' := by decide
  unfold tag?
  rw [Cursor.peekAt_one_marked hx, ← Cursor.peek_skip hx, peek_marked_beq c.skip (by decide)]
  refine Follows.ite (fun hverbatim => ?_) fun _ => ?_
  · have htwo : c.marked.skipMany 2 = (c.skipMany 2).marked := by
      show c.marked.skip.skip = c.skip.skip.marked
      rw [skip_marked hx, skip_marked (eq_of_beq hverbatim)]
    rw [htwo]
    refine Follows.bind (tagText?_marked (by rw [length_marked]; omega)) ?_
    rintro ⟨text, c₁⟩ ⟨text', c₁'⟩ ⟨htext, hkept⟩
    obtain rfl : text = text' := htext
    obtain rfl : c₁' = c₁.marked := hkept
    dsimp only
    rw [peek_marked_bne c₁ (by decide)]
    by_cases hclose : c₁.peek = some '>'
    · rw [skip_marked hclose]
      simp only [isBlankOrEnd_peek_marked, peek_marked_beq _ hcomma]
      exact Follows.ite (fun _ => Follows.none) fun _ => Follows.some ⟨rfl, rfl⟩
    · have hopen : (c₁.peek != some '>') = true := bne_iff_ne.mpr hclose
      rw [hopen, Bool.or_true, Bool.true_or, if_pos rfl]
      exact Follows.none
  · refine Follows.bind (tagHandle?_marked c) ?_
    rintro ⟨handle, c₁⟩ ⟨handle', c₁'⟩ ⟨hhandle, hkept₁⟩
    obtain rfl : handle = handle' := hhandle
    obtain rfl : c₁' = c₁.marked := hkept₁
    refine Follows.bind (tagText?_marked (by rw [length_marked]; omega)) ?_
    rintro ⟨text, c₂⟩ ⟨text', c₂'⟩ ⟨htext, hkept₂⟩
    obtain rfl : text = text' := htext
    obtain rfl : c₂' = c₂.marked := hkept₂
    simp only [isBlankOrEnd_peek_marked, peek_marked_beq _ hcomma]
    refine Follows.ite (fun _ => Follows.none) fun _ => ?_
    refine Follows.ite (fun _ => ?_) fun _ => ?_
    · exact Follows.ite (fun _ => Follows.none) fun _ => Follows.some ⟨rfl, rfl⟩
    · exact Follows.ite (fun _ => Follows.some ⟨rfl, rfl⟩) fun _ => Follows.some ⟨rfl, rfl⟩

/-! ## Directives -/

theorem versionNumber?_marked (c : Cursor) :
    Follows (Beside Kept) (versionNumber? c) (versionNumber? c.marked) := by
  unfold versionNumber?
  dsimp only
  rw [spanText_marked c (by decide), skipWhile_marked c (by decide)]
  exact Follows.ite (fun _ => Follows.none) fun _ => Follows.some ⟨rfl, rfl⟩

theorem versionDirective?_marked (c : Cursor) :
    Follows (Beside Meets) (versionDirective? c) (versionDirective? c.marked) := by
  unfold versionDirective?
  refine Follows.bind (versionNumber?_marked c) ?_
  rintro ⟨major, c₁⟩ ⟨major', c₁'⟩ ⟨hmajor, hkept₁⟩
  obtain rfl : major = major' := hmajor
  obtain rfl : c₁' = c₁.marked := hkept₁
  dsimp only
  rw [peek_marked_bne c₁ (by decide)]
  refine Follows.ite (fun _ => Follows.none) fun hpoint => ?_
  have hpeek : c₁.peek = some '.' :=
    Decidable.byContradiction fun hne => hpoint (bne_iff_ne.mpr hne)
  rw [skip_marked hpeek]
  refine Follows.bind (versionNumber?_marked c₁.skip) ?_
  rintro ⟨minor, c₂⟩ ⟨minor', c₂'⟩ ⟨hminor, hkept₂⟩
  obtain rfl : minor = minor' := hminor
  obtain rfl : c₂' = c₂.marked := hkept₂
  exact Follows.bind (Cursor.finishLine?_meets c₂) fun c₃ c₃' hmeets =>
    Follows.some ⟨rfl, hmeets⟩

theorem tagDirective?_marked (c : Cursor) :
    Follows (Beside Meets) (tagDirective? c) (tagDirective? c.marked) := by
  unfold tagDirective?
  refine Follows.bind (tagHandle?_marked c) ?_
  rintro ⟨handle, c₁⟩ ⟨handle', c₁'⟩ ⟨hhandle, hkept₁⟩
  obtain rfl : handle = handle' := hhandle
  obtain rfl : c₁' = c₁.marked := hkept₁
  dsimp only
  rw [any_peek_marked c₁ (by decide), skipWhile_marked c₁ (by decide)]
  refine Follows.ite (fun _ => Follows.none) fun _ => ?_
  refine Follows.ite (fun _ => Follows.none) fun _ => ?_
  refine Follows.bind (tagText?_marked (by rw [length_marked]; omega)) ?_
  rintro ⟨text, c₂⟩ ⟨text', c₂'⟩ ⟨htext, hkept₂⟩
  obtain rfl : text = text' := htext
  obtain rfl : c₂' = c₂.marked := hkept₂
  dsimp only
  rw [isBlankOrEnd_peek_marked]
  refine Follows.ite (fun _ => Follows.none) fun _ => ?_
  exact Follows.bind (Cursor.finishLine?_meets c₂) fun c₃ c₃' hmeets =>
    Follows.some ⟨rfl, hmeets⟩

theorem directive?_marked (hx : c.peek = some x) :
    Follows (Beside Meets) (directive? c) (directive? c.marked) := by
  rw [directive?_eq, directive?_eq, skip_marked hx, spanText_marked c.skip (by decide),
    skipWhile_marked c.skip (by decide), isBlankOrEnd_peek_marked]
  refine Follows.ite (fun _ => Follows.none) fun _ => ?_
  dsimp only
  rw [skipWhile_marked _ (by decide)]
  split
  · exact versionDirective?_marked _
  · exact tagDirective?_marked _
  · exact Follows.none

end SourceEdit.Yaml
