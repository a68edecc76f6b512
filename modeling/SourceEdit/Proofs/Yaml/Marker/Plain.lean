import SourceEdit.Proofs.Yaml.Marker.Quoted
import SourceEdit.Yaml.Token.Plain

/-!
# Plain scalars in front of a marker

A plain scalar that begins in front of a marker ends there at the latest.
-/

namespace SourceEdit.Yaml

variable {c : Cursor} {more : List Char} {f : Folding} {x : Char} {flow : Bool} {indent : Nat}

open Cursor (Ahead extend extend_length_le agrees_place agrees_farPlace)

/-- Whether a character can neither be read as part of a plain scalar nor is a gap in it. -/
def barsPlain (flow : Bool) (x : Char) (next : Option Char) : Bool :=
  (flow && x == ':' && next.any (fun y => isFlowIndicator y || y == '?')) ||
    (x == ':' && isBlankOrEnd next) || (flow && isFlowIndicator x)

/-- At a character that a plain scalar or a gap in it may go on with. -/
def Cursor.Unbarred (flow : Bool) (c : Cursor) : Prop :=
  ∃ x, c.peek = some x ∧ barsPlain flow x (c.peekAt 1) = false

theorem plainRun_agrees {fuel fuel' : Nat} (h : c.Inside) (hfuel : c.rest.length < fuel)
    (hfuel' : c.rest.length < fuel') :
    Agrees (Prod.map id (extend more))
      (fun r => r.2.Inside ∧ Ahead 0 c r.2 ∧ (c.Unbarred flow → r.2.AtGap ∨ Ahead 1 c r.2))
      (plainRun flow f fuel c) (plainRun flow f fuel' (c.extend more)) := by
  induction fuel generalizing c f fuel' with
  | zero => exact absurd hfuel (Nat.not_lt_zero _)
  | succ fuel ih =>
      obtain ⟨fuel', rfl⟩ : ∃ k, fuel' = k + 1 := ⟨fuel' - 1, by omega⟩
      obtain ⟨x, hx⟩ := h.before.peek_eq_some
      rw [plainRun, plainRun, h.before.peek_extend, hx]
      dsimp only
      refine Agrees.ite (fun hgap => ?_) fun hgap => ?_
      · exact agrees_place ⟨h, Ahead.refl, fun _ => Or.inl ⟨x, hx, hgap⟩⟩
      have hbreak : isBreak x = false := by
        rw [Bool.or_eq_true, not_or, Bool.not_eq_true, Bool.not_eq_true] at hgap
        exact hgap.2
      rw [h.before.peekAt_extend (by decide), h.skip_extend]
      refine Agrees.ite (fun _ => Agrees.none) fun _ => ?_
      refine Agrees.ite (fun hends => ?_) fun _ => ?_
      · refine agrees_place ⟨h, Ahead.refl, ?_⟩
        rintro ⟨y, hy, hbars⟩
        obtain rfl := Option.some.inj (hx.symm.trans hy)
        rw [barsPlain, Bool.or_assoc, hends, Bool.or_true] at hbars
        exact absurd hbars (by decide)
      have hlength := h.ahead_skip.length
      refine (ih (h.skip hx hbreak) (by omega) (by omega)).mono ?_
      rintro r ⟨hinside, hahead, -⟩
      have hall : Ahead 1 c r.2 := h.ahead_skip.trans hahead
      exact ⟨hinside, hall.weaken (Nat.zero_le _), fun _ => Or.inr hall⟩

theorem plainGap_agrees {fuel fuel' : Nat} (h : c.Before) (hfuel : c.rest.length < fuel)
    (hfuel' : c.rest.length < fuel') :
    Agrees (Prod.map id (extend more)) (fun r => r.2.Before ∧ Ahead 0 c r.2 ∧
        (c.AtGap → Ahead 1 c r.2))
      (plainGap indent f fuel c) (plainGap indent f fuel' (c.extend more)) := by
  induction fuel generalizing c f fuel' with
  | zero => exact absurd hfuel (Nat.not_lt_zero _)
  | succ fuel ih =>
      obtain ⟨fuel', rfl⟩ : ∃ k, fuel' = k + 1 := ⟨fuel' - 1, by omega⟩
      obtain ⟨x, hx⟩ := h.peek_eq_some
      rw [plainGap, plainGap, h.peek_extend, hx]
      dsimp only
      refine Agrees.ite (fun hgap => ?_) fun hgap => ?_
      · have hinside := h.inside_of_gap hx hgap
        obtain ⟨hbefore, hahead⟩ := Folding.take_before (f := f) hinside hx hgap
        have hlength := hahead.length
        refine Agrees.ite (fun _ => Agrees.none) fun _ => ?_
        rw [Folding.take_extend hinside]
        refine (ih hbefore (by omega) (by omega)).mono ?_
        rintro r ⟨hr, hmore, -⟩
        have hall : Ahead 1 c r.2 := hahead.trans hmore
        exact ⟨hr, hall.weaken (Nat.zero_le _), fun _ => hall⟩
      · refine agrees_place ⟨h, Ahead.refl, ?_⟩
        rintro ⟨y, hy, hgap'⟩
        obtain rfl := Option.some.inj (hx.symm.trans hy)
        exact absurd hgap' hgap

theorem plainLoop_agrees {fuel fuel' : Nat} (h : c.Before) (hfuel : c.rest.length < fuel)
    (hfuel' : c.rest.length < fuel') :
    Agrees (Prod.map id (Prod.map id (extend more))) (fun r => r.2.2.Before ∧ Ahead 0 c r.2.2 ∧
        ((c.atDocumentMarker || c.peek == some '#') = false → c.Unbarred flow →
          Ahead 1 c r.2.2))
      (plainLoop flow indent f fuel c) (plainLoop flow indent f fuel' (c.extend more)) := by
  induction fuel generalizing c f fuel' with
  | zero => exact absurd hfuel (Nat.not_lt_zero _)
  | succ fuel ih =>
      obtain ⟨fuel', rfl⟩ : ∃ k, fuel' = k + 1 := ⟨fuel' - 1, by omega⟩
      rw [plainLoop, plainLoop, h.atDocumentMarker_extend, h.peek_extend]
      dsimp only
      refine Agrees.ite (fun hstop => ?_) fun hgo => ?_
      · refine agrees_farPlace ⟨h, Ahead.refl, fun hnot => ?_⟩
        rw [hstop] at hnot
        exact absurd hnot (by decide)
      have hinside : c.Inside := by
        rw [Bool.or_eq_true, not_or, Bool.not_eq_true] at hgo
        exact h.inside_of_notMarker hgo.1
      refine Agrees.bind (plainRun_agrees hinside (Nat.lt_add_one _)
        (Nat.lt_succ_of_le extend_length_le)) ?_
      rintro ⟨g, c₁⟩ ⟨hrun, hahead, hmoves⟩
      dsimp only at hrun hahead hmoves
      simp only [Prod.map, id, hrun.before.peek_extend]
      -- without a gap behind its run, the scalar ends there
      refine Agrees.ite (fun hgap => ?_) fun hgap => ?_
      · refine agrees_farPlace ⟨hrun.before, hahead, fun _ hstart => ?_⟩
        rcases hmoves hstart with ⟨x, hx, hgap'⟩ | hmoves
        · rw [hx, Option.any_some, hgap'] at hgap
          exact absurd hgap (by decide)
        · exact hmoves
      have hgap₁ : c₁.AtGap := by
        obtain ⟨x, hx⟩ := hrun.before.peek_eq_some
        rw [hx] at hgap
        refine ⟨x, hx, ?_⟩
        rw [Option.any_some, Bool.not_eq_true', Bool.not_eq_false] at hgap
        exact hgap
      refine Agrees.bind (plainGap_agrees hrun.before (Nat.lt_add_one _)
        (Nat.lt_succ_of_le extend_length_le)) ?_
      rintro ⟨g', c₂⟩ ⟨hbefore, hmore, hmoves'⟩
      dsimp only [Prod.map, id] at hbefore hmore hmoves' ⊢
      have hall : Ahead 1 c c₂ := (hahead.trans (hmoves' hgap₁)).weaken (by decide)
      have hlength := hall.length
      refine Agrees.ite (fun _ => ?_) fun _ => ?_
      · exact agrees_farPlace ⟨hbefore, hall.weaken (by decide), fun _ _ => hall⟩
      · refine (ih hbefore (by omega) (by omega)).mono ?_
        rintro r ⟨hr, hr', -⟩
        have hend : Ahead 1 c r.2.2 := hall.trans hr'
        exact ⟨hr, hend.weaken (by decide), fun _ _ => hend⟩

/-- A plain scalar that can start in front of the marker ends there. -/
theorem plain?_agrees (h : c.Inside) (hmarker : c.atDocumentMarker = false)
    (hcomment : c.peek ≠ some '#') (hstart : c.Unbarred flow) :
    Agrees (Prod.map id (Prod.map id (extend more)))
      (fun r => r.2.2.Before ∧ Ahead 1 c r.2.2)
      (plain? flow indent c) (plain? flow indent (c.extend more)) := by
  refine (plainLoop_agrees h.before (Nat.lt_add_one _)
    (Nat.lt_succ_of_le extend_length_le)).mono ?_
  rintro r ⟨hr, -, hmoves⟩
  refine ⟨hr, hmoves ?_ hstart⟩
  rw [hmarker, Bool.false_or, beq_eq_false_iff_ne]
  exact hcomment

end SourceEdit.Yaml
