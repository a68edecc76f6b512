import SourceEdit.Proofs.Yaml.Marker.Cursor
import SourceEdit.Yaml.Token.Quoted

/-!
# Quoted scalars in front of a marker

A quoted scalar that begins in front of a marker either closes there, or is at fault: the marker
may not stand within it.
-/

namespace SourceEdit.Yaml

variable {c : Cursor} {more : List Char} {f : Folding} {x : Char} {single : Bool}

open Cursor (Ahead extend extend_length_le agrees_place)

theorem Cursor.Inside.rest_eq (h : c.Inside) (hx : c.peek = some x) (hbreak : isBreak x = false) :
    ∃ r, c.rest = x :: r ++ '\n' :: markerLine := by
  obtain ⟨r, hr⟩ := h
  cases r with
  | nil =>
      rw [Cursor.peek, hr] at hx
      obtain rfl : '\n' = x := Option.some.inj hx
      exact absurd hbreak (by decide)
  | cons y r =>
      rw [Cursor.peek, hr] at hx
      obtain rfl : y = x := Option.some.inj hx
      exact ⟨r, hr⟩

/-! ## Escapes -/

theorem hexRun?_lineEnd (acc n : Nat) (r t : List Char) :
    hexRun? acc n (r ++ '\n' :: t) = hexRun? acc n r := by
  induction n generalizing acc r with
  | zero => simp only [hexRun?]
  | succ n ih =>
      cases r with
      | nil => rfl
      | cons y r =>
          rw [List.cons_append, hexRun?, hexRun?]
          cases Text.digit? 16 y with
          | none => rfl
          | some d => exact ih _ r

theorem le_length_of_hexRun? {acc n v : Nat} {r : List Char} (h : hexRun? acc n r = some v) :
    n ≤ r.length := by
  induction n generalizing acc r with
  | zero => exact Nat.zero_le _
  | succ n ih =>
      cases r with
      | nil => exact absurd h (by simp [hexRun?])
      | cons y r =>
          rw [hexRun?] at h
          cases hdigit : Text.digit? 16 y with
          | none => rw [hdigit] at h; exact absurd h (by simp)
          | some d =>
              rw [hdigit] at h
              exact Nat.succ_le_succ (ih h)

theorem escapeAt?_agrees (h : c.Inside) (hx : c.peek = some '\\') :
    Agrees (Prod.map id (extend more)) (fun r => r.2.Inside ∧ Ahead 1 c r.2)
      (escapeAt? c) (escapeAt? (c.extend more)) := by
  obtain ⟨r, hr⟩ := h.rest_eq hx (by decide)
  unfold escapeAt?
  rw [h.before.peekAt_extend (by decide)]
  refine Agrees.bind_same fun letter hletter => ?_
  cases r with
  | nil =>
      rw [Cursor.peekAt, hr] at hletter
      obtain rfl : '\n' = letter := Option.some.inj hletter
      exact Agrees.none
  | cons y r =>
      rw [Cursor.peekAt, hr] at hletter
      obtain rfl : y = letter := Option.some.inj hletter
      -- an escape of `2 + n` characters, if so many stand on the line
      have hstep : ∀ (n : Nat) (z : Char), n ≤ r.length →
          Agrees (Prod.map id (extend more)) (fun r => r.2.Inside ∧ Ahead 1 c r.2)
            (some (z, c.skipMany (2 + n))) (some (z, (c.extend more).skipMany (2 + n))) := by
        intro n z hn
        have hlength : 2 + n ≤ ('\\' :: y :: r).length := by
          simp only [List.length_cons]
          omega
        obtain ⟨hinside, hahead, heq⟩ := Cursor.inside_skipMany more hr hlength
        rw [heq]
        exact agrees_place ⟨hinside, hahead.weaken (by omega)⟩
      cases simpleEscape? y with
      | some z => exact hstep 0 z (Nat.zero_le _)
      | none =>
          refine Agrees.bind_same fun count _ => ?_
          have hdrop : ∀ t, (c.rest ++ t).drop 2 = r ++ '\n' :: (markerLine ++ t) := by
            intro t
            rw [hr]
            simp only [List.cons_append, List.append_assoc, List.drop_succ_cons, List.drop_zero]
          have hshort := hdrop []
          rw [List.append_nil, List.append_nil] at hshort
          rw [extend, hdrop, hshort, hexRun?_lineEnd, hexRun?_lineEnd]
          refine Agrees.bind_same fun v hv => Agrees.bind_same fun z _ => ?_
          exact hstep count z (le_length_of_hexRun? hv)

/-! ## Blanks and line ends -/

def Cursor.AtGap (c : Cursor) : Prop := ∃ x, c.peek = some x ∧ (isBlank x || isBreak x) = true

theorem Folding.take_extend (h : c.Inside) :
    f.take (c.extend more) = Prod.map id (extend more) (f.take c) := by
  unfold Folding.take
  rw [h.before.peek_extend, h.before.breakText_extend, h.skip_extend, h.skipBreak_extend]
  cases c.peek with
  | none => rfl
  | some x =>
      dsimp only
      split
      · split <;> rfl
      · split <;> rfl

/-- Taking up a blank or a line end is progress. -/
theorem Folding.take_before (h : c.Inside) (hx : c.peek = some x)
    (hgap : (isBlank x || isBreak x) = true) :
    (f.take c).2.Before ∧ Ahead 1 c (f.take c).2 := by
  unfold Folding.take
  rw [hx]
  dsimp only
  by_cases hblank : isBlank x = true
  · have hbreak : isBreak x = false := by
      rw [isBlank, Bool.or_eq_true, beq_iff_eq, beq_iff_eq] at hblank
      rcases hblank with rfl | rfl <;> decide
    rw [if_pos hblank]
    split
    · exact ⟨(h.skip hx hbreak).before, h.ahead_skip⟩
    · exact ⟨(h.skip hx hbreak).before, h.ahead_skip⟩
  · have hbreak : isBreak x = true := by
      rw [Bool.not_eq_true] at hblank
      rw [hblank, Bool.false_or] at hgap
      exact hgap
    rw [if_neg hblank]
    split
    · exact ⟨h.skipBreak, h.ahead_skipBreak_of_isBreak hx hbreak⟩
    · exact ⟨h.skipBreak, h.ahead_skipBreak_of_isBreak hx hbreak⟩

/-- Taking up all blanks and line ends: it stops at the marker at the latest. -/
theorem Folding.takeAll_agrees (more : List Char) {fuel fuel' : Nat} (h : c.Before)
    (hfuel : c.rest.length < fuel)
    (hfuel' : c.rest.length < fuel') :
    f.takeAll fuel' (c.extend more) = Prod.map id (extend more) (f.takeAll fuel c) ∧
      (f.takeAll fuel c).2.Before ∧ Ahead 0 c (f.takeAll fuel c).2 ∧
      (c.AtGap → Ahead 1 c (f.takeAll fuel c).2) := by
  induction fuel generalizing c f fuel' with
  | zero => exact absurd hfuel (Nat.not_lt_zero _)
  | succ fuel ih =>
      obtain ⟨fuel', rfl⟩ : ∃ k, fuel' = k + 1 := ⟨fuel' - 1, by omega⟩
      obtain ⟨x, hx⟩ := h.peek_eq_some
      rw [Folding.takeAll, Folding.takeAll, h.peek_extend, hx]
      dsimp only
      by_cases hgap : (isBlank x || isBreak x) = true
      · have hinside := h.inside_of_gap hx hgap
        obtain ⟨hbefore, hahead⟩ := Folding.take_before (f := f) hinside hx hgap
        have hlength := hahead.length
        obtain ⟨heq, hend, hmore, -⟩ := @ih (f.take c).2 (f.take c).1 fuel' hbefore
          (by omega) (by omega)
        rw [if_pos hgap, if_pos hgap, Folding.take_extend hinside]
        have hall : Ahead 1 c ((f.take c).1.takeAll fuel (f.take c).2).2 := hahead.trans hmore
        exact ⟨heq, hend, hall.weaken (Nat.zero_le _), fun _ => hall⟩
      · rw [if_neg hgap, if_neg hgap]
        refine ⟨rfl, h, Ahead.refl, ?_⟩
        rintro ⟨y, hy, hgap'⟩
        obtain rfl := Option.some.inj (hx.symm.trans hy)
        exact absurd hgap' hgap

/-! ## Runs and loops -/

def closingQuote (single : Bool) : Char := if single then '\'' else '"'

/-- Where a run of characters within quotes may stop, having started at `c`. -/
def StopsQuoted (single : Bool) (c c' : Cursor) : Prop :=
  Ahead 1 c c' ∨ c'.peek = some (closingQuote single) ∨ c'.AtGap

theorem quotedRun_agrees {fuel fuel' : Nat} (h : c.Inside) (hfuel : c.rest.length < fuel)
    (hfuel' : c.rest.length < fuel') :
    Agrees (Prod.map id (extend more))
      (fun r => r.2.Before ∧ Ahead 0 c r.2 ∧ StopsQuoted single c r.2)
      (quotedRun single f fuel c) (quotedRun single f fuel' (c.extend more)) := by
  induction fuel generalizing c f fuel' with
  | zero => exact absurd hfuel (Nat.not_lt_zero _)
  | succ fuel ih =>
      obtain ⟨fuel', rfl⟩ : ∃ k, fuel' = k + 1 := ⟨fuel' - 1, by omega⟩
      obtain ⟨x, hx⟩ := h.before.peek_eq_some
      -- once a character has been taken, the rest of the run is the induction hypothesis
      have hnext : ∀ (g : Folding) (c' : Cursor), c'.Inside → Ahead 1 c c' →
          Agrees (Prod.map id (extend more))
            (fun r => r.2.Before ∧ Ahead 0 c r.2 ∧ StopsQuoted single c r.2)
            (quotedRun single g fuel c') (quotedRun single g fuel' (c'.extend more)) := by
        intro g c' hinside hahead
        have hlength := hahead.length
        refine (ih hinside (by omega) (by omega)).mono ?_
        rintro r ⟨hbefore, hmore, -⟩
        have hall : Ahead 1 c r.2 := hahead.trans hmore
        exact ⟨hbefore, hall.weaken (Nat.zero_le _), Or.inl hall⟩
      have hstop : StopsQuoted single c c → Agrees (Prod.map id (extend more))
          (fun r => r.2.Before ∧ Ahead 0 c r.2 ∧ StopsQuoted single c r.2)
          (some (f, c)) (some (f, c.extend more)) := fun hstops =>
        agrees_place ⟨h.before, Ahead.refl, hstops⟩
      rw [quotedRun, quotedRun, h.before.peek_extend, hx]
      dsimp only
      refine Agrees.ite (fun hgap => hstop (Or.inr (Or.inr ⟨x, hx, hgap⟩))) fun hgap => ?_
      have hbreak : isBreak x = false := by
        rw [Bool.or_eq_true, not_or, Bool.not_eq_true, Bool.not_eq_true] at hgap
        exact hgap.2
      have hskip := h.skip hx hbreak
      rw [h.before.peekAt_extend (by decide), h.skip_extend]
      cases single with
      | true =>
          rw [if_pos rfl, if_pos rfl]
          refine Agrees.ite (fun hquote => ?_) fun _ => hnext _ _ hskip h.ahead_skip
          rw [beq_iff_eq] at hquote
          -- a quote that is written twice is a character, one alone closes the scalar
          refine Agrees.ite (fun htwice => ?_) fun _ => hstop (Or.inr (Or.inl ?_))
          · rw [beq_iff_eq, ← h.peek_skip] at htwice
            have hskip' : (c.extend more).skipMany 2 = c.skip.skip.extend more := by
              rw [← hskip.skip_extend, ← h.skip_extend]
              rfl
            rw [hskip']
            exact hnext _ _ (hskip.skip htwice (by decide))
              ((h.ahead_skip.trans hskip.ahead_skip).weaken (by decide))
          · rw [hx, hquote]
            rfl
      | false =>
          rw [if_neg Bool.false_ne_true, if_neg Bool.false_ne_true]
          refine Agrees.ite (fun hquote => hstop (Or.inr (Or.inl ?_))) fun _ => ?_
          · rw [beq_iff_eq] at hquote
            rw [hx, hquote]
            rfl
          refine Agrees.ite (fun hslash => ?_) fun _ => hnext _ _ hskip h.ahead_skip
          rw [beq_iff_eq] at hslash
          refine Agrees.ite (fun _ => ?_) fun _ => ?_
          · rw [hskip.skipBreak_extend]
            have hahead : Ahead 1 c c.skip.skipBreak := h.ahead_skip.trans hskip.ahead_skipBreak
            exact agrees_place ⟨hskip.skipBreak, hahead.weaken (Nat.zero_le _), Or.inl hahead⟩
          · refine Agrees.bind (escapeAt?_agrees h (hx.trans (congrArg some hslash))) ?_
            rintro ⟨z, c'⟩ ⟨hinside, hahead⟩
            exact hnext _ _ hinside hahead

theorem quotedLoop_agrees {fuel fuel' : Nat} (h : c.Before) (hfuel : c.rest.length < fuel)
    (hfuel' : c.rest.length < fuel') :
    Agrees (Prod.map id (extend more)) (fun r => r.2.Inside ∧ Ahead 1 c r.2)
      (quotedLoop single f fuel c) (quotedLoop single f fuel' (c.extend more)) := by
  induction fuel generalizing c f fuel' with
  | zero => exact absurd hfuel (Nat.not_lt_zero _)
  | succ fuel ih =>
      obtain ⟨fuel', rfl⟩ : ∃ k, fuel' = k + 1 := ⟨fuel' - 1, by omega⟩
      rw [quotedLoop, quotedLoop, h.atDocumentMarker_extend, h.peek_extend, h.peek_isNone,
        Bool.or_false]
      by_cases hmarker : c.atDocumentMarker = true
      · rw [if_pos hmarker, if_pos hmarker]
        exact Agrees.none
      rw [if_neg hmarker, if_neg hmarker]
      have hinside := h.inside_of_notMarker (Bool.eq_false_iff.mpr hmarker)
      refine Agrees.bind (quotedRun_agrees hinside (Nat.lt_add_one _) (Nat.lt_succ_of_le ?_)) ?_
      · exact extend_length_le
      rintro ⟨g, c'⟩ ⟨hbefore, hahead, hstops⟩
      dsimp only [Prod.map, id] at hbefore hahead hstops ⊢
      rw [hbefore.peek_extend]
      refine Agrees.ite (fun hquote => ?_) fun hquote => ?_
      · rw [beq_iff_eq] at hquote
        have hend : c'.Inside := by
          refine hbefore.inside ?_
          rw [hquote]
          cases single <;> decide
        rw [hend.skip_extend]
        exact agrees_place ⟨hend.skip hquote (by cases single <;> decide),
          hahead.trans hend.ahead_skip⟩
      · obtain ⟨heq, hend, hmore, hgap⟩ := Folding.takeAll_agrees (f := g) more hbefore
          (Nat.lt_add_one _) (Nat.lt_succ_of_le extend_length_le)
        rw [heq]
        -- a run that stops at no quote stops at a gap, so that each round moves ahead
        have hall : Ahead 1 c (g.takeAll (c'.rest.length + 1) c').2 := by
          rcases hstops with hstops | hstops | hstops
          · exact hstops.trans hmore
          · rw [hstops] at hquote
            exact absurd (by cases single <;> decide) hquote
          · exact (hahead.trans (hgap hstops)).weaken (by decide)
        have hlength := hall.length
        refine (ih hend (by omega) (by omega)).mono ?_
        rintro r ⟨hr, hr'⟩
        exact ⟨hr, (hall.trans hr').weaken (by decide)⟩

/-- A quoted scalar closes in front of the marker, or is at fault. -/
theorem quoted?_agrees (h : c.Inside) (hx : c.peek = some x) (hbreak : isBreak x = false) :
    Agrees (Prod.map id (extend more)) (fun r => r.2.Inside ∧ Ahead 1 c r.2)
      (quoted? single c) (quoted? single (c.extend more)) := by
  unfold quoted?
  rw [h.skip_extend]
  have hlength := h.ahead_skip.length
  have hmore : c.rest.length ≤ (c.extend more).rest.length := extend_length_le
  refine (quotedLoop_agrees (h.skip hx hbreak).before (by omega) (by omega)).mono ?_
  rintro r ⟨hr, hr'⟩
  exact ⟨hr, (h.ahead_skip.trans hr').weaken (by decide)⟩

end SourceEdit.Yaml
