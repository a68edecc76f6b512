import SourceEdit.Proofs.Yaml.Ending.Cursor
import SourceEdit.Proofs.Yaml.Marker.Quoted

/-!
# Quoted scalars at the end of a text

A quoted scalar that the text closes reads the same with the line of a marker behind the text: it
never comes to the end.
-/

namespace SourceEdit.Yaml

open Cursor (Kept Meets marked length_marked skip_marked skipMany_marked peek_marked
  peek_marked_of_some peek_marked_beq peekAt_one_marked rest_eq_nil_iff)
open Outcome (Follows Beside)

variable {c : Cursor} {f : Folding} {x : Char} {single : Bool} {m n : Nat}

/-! ## Escapes -/

/-- An escape stands within the text as a whole. -/
theorem escapeAt?_marked (c : Cursor) :
    Follows (Beside Kept) (escapeAt? c) (escapeAt? c.marked) := by
  unfold escapeAt?
  cases hletter : c.peekAt 1 with
  | none => exact Follows.none
  | some letter =>
      have hlength : 2 ≤ c.rest.length := (List.getElem?_eq_some_iff.mp hletter).1
      have hlong : c.marked.peekAt 1 = some letter :=
        (List.getElem?_append_left hlength).trans hletter
      rw [hlong]
      refine Follows.bind_same fun letter _ => ?_
      cases simpleEscape? letter with
      | some z => exact Follows.some ⟨rfl, skipMany_marked hlength⟩
      | none =>
          have hdrop : c.marked.rest.drop 2 = c.rest.drop 2 ++ '\n' :: markerLine :=
            List.drop_append_of_le_length hlength
          refine Follows.bind_same fun count _ => ?_
          rw [hdrop, hexRun?_lineEnd]
          refine Follows.bind_same fun v hv => Follows.bind_same fun z _ => ?_
          have hcount := le_length_of_hexRun? hv
          rw [List.length_drop] at hcount
          exact Follows.some ⟨rfl, skipMany_marked (by omega)⟩

/-! ## Blanks and line ends -/

theorem Folding.take_marked (hx : c.peek = some x) :
    Beside Meets (f.take c) (f.take c.marked) := by
  unfold Folding.take
  rw [peek_marked_of_some hx, hx, Cursor.breakText_marked hx, skip_marked hx]
  dsimp only
  split
  · split
    · exact ⟨rfl, Or.inl rfl⟩
    · exact ⟨rfl, Or.inl rfl⟩
  · split
    · exact ⟨rfl, Cursor.skipBreak_meets c⟩
    · exact ⟨rfl, Cursor.skipBreak_meets c⟩

theorem Folding.length_take_lt (hx : c.peek = some x) (hgap : (isBlank x || isBreak x) = true) :
    (f.take c).2.rest.length < c.rest.length := by
  unfold Folding.take
  rw [hx]
  dsimp only
  by_cases hblank : isBlank x = true
  · rw [if_pos hblank]
    split
    · exact Cursor.length_skip_lt hx
    · exact Cursor.length_skip_lt hx
  · have hbreak : isBreak x = true := (Bool.or_eq_true _ _ ▸ hgap).resolve_left hblank
    rw [if_neg hblank]
    split
    · exact Cursor.length_skipBreak_lt hx hbreak
    · exact Cursor.length_skipBreak_lt hx hbreak

theorem Folding.takeAll_of_end (h : c.rest = []) (n : Nat) : f.takeAll n c = (f, c) := by
  cases n with
  | zero => rfl
  | succ n => rw [Folding.takeAll, rest_eq_nil_iff.mp h]

/-- Taking up all blanks and line ends, as long as something else follows them. -/
theorem Folding.takeAll_marked (hn : c.rest.length < n) (hm : c.rest.length < m)
    (hends : (f.takeAll n c).2.rest ≠ []) :
    f.takeAll m c.marked = Prod.map id marked (f.takeAll n c) := by
  induction n generalizing c f m with
  | zero => exact absurd hn (Nat.not_lt_zero _)
  | succ n ih =>
      obtain ⟨m, rfl⟩ : ∃ k, m = k + 1 := ⟨m - 1, by omega⟩
      cases hx : c.peek with
      | none =>
          have hend := rest_eq_nil_iff.mpr hx
          rw [Folding.takeAll_of_end hend] at hends
          exact absurd hend hends
      | some x =>
          rw [Folding.takeAll, Folding.takeAll, peek_marked_of_some hx, hx]
          rw [Folding.takeAll, hx] at hends
          dsimp only at hends ⊢
          by_cases hgap : (isBlank x || isBreak x) = true
          · rw [if_pos hgap] at hends ⊢
            rw [if_pos hgap]
            have hlength := Folding.length_take_lt (f := f) hx hgap
            obtain ⟨htext, hmeets⟩ := Folding.take_marked (f := f) hx
            have hne : (f.take c).2.rest ≠ [] := by
              intro hend
              rw [Folding.takeAll_of_end hend] at hends
              exact hends hend
            rw [← htext, hmeets.kept hne]
            exact ih (by omega) (by omega) hends
          · rw [if_neg hgap, if_neg hgap]
            rfl

/-! ## Runs and loops -/

theorem quotedRun_marked (hnm : n ≤ m) :
    Follows (Beside Meets) (quotedRun single f n c) (quotedRun single f m c.marked) := by
  induction n generalizing c f m with
  | zero => exact Follows.none
  | succ n ih =>
      obtain ⟨m, rfl⟩ : ∃ k, m = k + 1 := ⟨m - 1, by omega⟩
      have hnm' : n ≤ m := Nat.le_of_succ_le_succ hnm
      have hstop : Follows (Beside Meets) (some (f, c)) (some (f, c.marked)) :=
        Follows.some ⟨rfl, Or.inl rfl⟩
      rw [quotedRun, quotedRun, peek_marked]
      cases hx : c.peek with
      | none => exact hstop
      | some x =>
          dsimp only [Option.getD_some]
          refine Follows.ite (fun _ => hstop) fun _ => ?_
          rw [skip_marked hx, peekAt_one_marked hx, ← Cursor.peek_skip hx]
          cases single with
          | true =>
              rw [if_pos rfl, if_pos rfl]
              refine Follows.ite (fun _ => ?_) fun _ => ih hnm'
              rw [peek_marked_beq c.skip (by decide)]
              refine Follows.ite (fun htwice => ?_) fun _ => hstop
              have htwo : c.marked.skipMany 2 = (c.skipMany 2).marked := by
                show c.marked.skip.skip = c.skip.skip.marked
                rw [skip_marked hx, skip_marked (eq_of_beq htwice)]
              rw [htwo]
              exact ih hnm'
          | false =>
              rw [if_neg Bool.false_ne_true, if_neg Bool.false_ne_true]
              refine Follows.ite (fun _ => hstop) fun _ => ?_
              refine Follows.ite (fun _ => ?_) fun _ => ih hnm'
              cases hnext : c.skip.peek with
              | none =>
                  -- a backslash at the end of the text is no escape
                  have hfail : escapeAt? c = none := by
                    rw [escapeAt?, ← Cursor.peek_skip hx, hnext]
                    rfl
                  rw [hfail]
                  exact Follows.none
              | some y =>
                  rw [peek_marked_of_some hnext]
                  refine Follows.ite (fun _ => ?_) fun _ => ?_
                  · exact Follows.some ⟨rfl, Cursor.skipBreak_meets c.skip⟩
                  · refine Follows.bind (escapeAt?_marked c) ?_
                    rintro ⟨z, c₁⟩ ⟨z', c₁'⟩ ⟨hz, hkept⟩
                    obtain rfl : z = z' := hz
                    obtain rfl : c₁' = c₁.marked := hkept
                    exact ih hnm'

theorem quotedLoop_of_end (h : c.rest = []) (n : Nat) : quotedLoop single f n c = none := by
  cases n with
  | zero => rfl
  | succ n =>
      rw [quotedLoop, rest_eq_nil_iff.mp h, Option.isNone_none, Bool.or_true]
      rfl

theorem quotedLoop_marked (hnm : n ≤ m) :
    Follows (Beside Kept) (quotedLoop single f n c) (quotedLoop single f m c.marked) := by
  induction n generalizing c f m with
  | zero => exact Follows.none
  | succ n ih =>
      obtain ⟨m, rfl⟩ : ∃ k, m = k + 1 := ⟨m - 1, by omega⟩
      by_cases hend : c.rest = []
      · rw [quotedLoop_of_end hend]
        exact Follows.none
      have hfilled : c.marked.peek.isNone = c.peek.isNone := by
        rw [rest_eq_nil_iff, ← Ne, Option.ne_none_iff_exists'] at hend
        obtain ⟨x, hx⟩ := hend
        rw [peek_marked_of_some hx, hx]
      rw [quotedLoop, quotedLoop, Cursor.atDocumentMarker_marked, hfilled]
      refine Follows.ite (fun _ => Follows.none) fun _ => ?_
      refine Follows.bind (quotedRun_marked (by rw [length_marked]; omega)) ?_
      rintro ⟨g, c₁⟩ ⟨g', c₁'⟩ ⟨hg, hmeets⟩
      obtain rfl : g = g' := hg
      dsimp only at hmeets ⊢
      by_cases hend₁ : c₁.rest = []
      · -- the text ends in front of the quote
        rw [rest_eq_nil_iff.mp hend₁, Folding.takeAll_of_end hend₁, quotedLoop_of_end hend₁]
        exact Follows.none
      rw [hmeets.kept hend₁, peek_marked_beq c₁ (by cases single <;> decide)]
      refine Follows.ite (fun hquote => ?_) fun _ => ?_
      · exact Follows.some ⟨rfl, skip_marked (eq_of_beq hquote)⟩
      by_cases hend₂ : (g.takeAll (c₁.rest.length + 1) c₁).2.rest = []
      · rw [quotedLoop_of_end hend₂]
        exact Follows.none
      · rw [Folding.takeAll_marked (Nat.lt_add_one _) (by rw [length_marked]; omega) hend₂]
        exact ih (Nat.le_of_succ_le_succ hnm)

/-- A quoted scalar closes within the text, or is at fault. -/
theorem quoted?_marked (hx : c.peek = some x) :
    Follows (Beside Kept) (quoted? single c) (quoted? single c.marked) := by
  unfold quoted?
  rw [skip_marked hx]
  exact quotedLoop_marked (by rw [length_marked]; omega)

end SourceEdit.Yaml
