import SourceEdit.Proofs.Yaml.Marker.Block
import SourceEdit.Proofs.Yaml.Marker.Plain
import SourceEdit.Proofs.Yaml.Marker.State

/-!
# The lexer in front of a marker

The lexer reads a text that a marker follows in the same way whatever stands behind the marker's
line: it either stops at the same fault, or arrives behind the marker in the same state. There all
blocks are closed, unless brackets are still open.
-/

namespace SourceEdit.Yaml

open Cursor (Ahead)

namespace LexerState

variable {s s' : LexerState} {more : List Char} {t : Token} {x : Char}

def extend (more : List Char) (s : LexerState) : LexerState :=
  { s with cursor := s.cursor.extend more }

/-- The candidates do not stand on later lines than the cursor. -/
structure Dated (s : LexerState) : Prop where
  candidate : ∀ k, s.candidate = some k → k.line ≤ s.cursor.line
  outer : ∀ k, some k ∈ s.outerCandidates → k.line ≤ s.cursor.line

/-- The lexer has gone on from a place by at least `n` characters, but not behind the marker. -/
structure Onward (n : Nat) (c : Cursor) (s : LexerState) : Prop where
  before : s.cursor.Before
  ahead : Ahead n c s.cursor
  dated : s.Dated

theorem Dated.move (h : s.Dated) {c : Cursor} {n : Nat} (hc : Ahead n s.cursor c) (b : Bool) :
    Dated { s with cursor := c, keyAllowed := b } where
  candidate := fun k hk => Nat.le_trans (h.candidate k hk) hc.line
  outer := fun k hk => Nat.le_trans (h.outer k hk) hc.line

theorem Dated.advance (h : s.Dated) {c : Cursor} {n : Nat} (hc : Ahead n s.cursor c) (b : Bool)
    (t : Token) : ({ s with cursor := c, keyAllowed := b }.emit t).Dated :=
  ⟨(h.move hc b).candidate, (h.move hc b).outer⟩

/-! ## Candidates -/

theorem dropCandidate?_agrees (h : s.Dated) :
    Agrees (extend more) (fun s' => s'.cursor = s.cursor ∧ s'.Dated) s.dropCandidate?
      (s.extend more).dropCandidate? := by
  refine Agrees.ite (fun _ => Agrees.none) fun _ => Agrees.some ⟨rfl, ?_⟩
  exact { h with candidate := fun k hk => absurd hk (by simp) }

theorem noteCandidate?_agrees (h : s.Dated) :
    Agrees (extend more) (fun s' => s'.cursor = s.cursor ∧ s'.Dated) s.noteCandidate?
      (s.extend more).noteCandidate? := by
  refine Agrees.ite (fun _ => ?_) fun _ => Agrees.some ⟨rfl, h⟩
  refine Agrees.bind (dropCandidate?_agrees h) ?_
  rintro s₁ ⟨hcursor, hdated⟩
  refine Agrees.some ⟨hcursor, { hdated with candidate := fun k hk => ?_ }⟩
  obtain rfl := Option.some.inj hk
  exact Nat.le_refl _

theorem dropStale?_agrees (h : s.Dated) :
    Agrees (extend more) (fun s' => s'.cursor = s.cursor ∧ s'.Dated) s.dropStale?
      (s.extend more).dropStale? := by
  refine Agrees.ite (fun _ => Agrees.none) fun _ => Agrees.some ⟨rfl, ?_⟩
  constructor
  · intro k hk
    dsimp only at hk
    split at hk
    · exact absurd hk (by simp)
    · exact h.candidate k hk
  · intro k hk
    obtain ⟨k', hk', hkeep⟩ := List.mem_map.mp hk
    split at hkeep
    · exact absurd hkeep (by simp)
    · obtain rfl := hkeep
      exact h.outer k hk'

/-! ## Blocks -/

/-- An operation on the books: it neither looks at the text nor moves in it. -/
structure Blind (f : LexerState → LexerState) (s : LexerState) : Prop where
  extend : ∀ more, f (s.extend more) = (f s).extend more
  cursor : (f s).cursor = s.cursor
  dated : s.Dated → (f s).Dated

theorem Blind.ite {p : LexerState → Bool} {f g : LexerState → LexerState}
    (hp : ∀ more, p (s.extend more) = p s) (hf : Blind f s) (hg : Blind g s) :
    Blind (fun s => if p s then f s else g s) s := by
  cases h : p s with
  | true =>
      refine ⟨fun more => ?_, ?_, ?_⟩
      · simp only [hp, h, if_true]
        exact hf.extend more
      · simp only [h, if_true]
        exact hf.cursor
      · simp only [h, if_true]
        exact hf.dated
  | false =>
      refine ⟨fun more => ?_, ?_, ?_⟩
      · simp only [hp, h, Bool.false_eq_true, if_false]
        exact hg.extend more
      · simp only [h, Bool.false_eq_true, if_false]
        exact hg.cursor
      · simp only [h, Bool.false_eq_true, if_false]
        exact hg.dated

theorem blind_id : Blind id s := ⟨fun _ => rfl, rfl, id⟩

theorem blind_openBlock (column : Nat) (position : Option Nat) (start : Token) :
    Blind (openBlock · column position start) s := by
  have hflow : ∀ more, ((s.extend more).inFlow || (s.extend more).indent.any (column ≤ ·)) =
      (s.inFlow || s.indent.any (column ≤ ·)) := fun _ => rfl
  cases position with
  | none =>
      exact Blind.ite hflow blind_id
        ⟨fun _ => rfl, rfl, fun hdated => ⟨hdated.candidate, hdated.outer⟩⟩
  | some p =>
      exact Blind.ite hflow blind_id
        ⟨fun _ => rfl, rfl, fun hdated => ⟨hdated.candidate, hdated.outer⟩⟩

theorem blind_closeBlocksLoop (column : Option Nat) (fuel : Nat) :
    Blind (closeBlocksLoop column fuel) s := by
  induction fuel generalizing s with
  | zero => exact blind_id
  | succ fuel ih =>
      obtain ⟨cursor, tokens, count, indent, outerIndents, keyAllowed, candidate, outer⟩ := s
      cases indent with
      | none => exact ⟨fun _ => rfl, rfl, id⟩
      | some i =>
          cases outerIndents with
          | nil => exact ⟨fun _ => rfl, rfl, id⟩
          | cons indent' rest =>
              have hclosed := @ih ⟨cursor, .blockEnd :: tokens, count + 1, indent', rest,
                keyAllowed, candidate, outer⟩
              have hall : Blind (fun s => if column.all (· < i) then
                    closeBlocksLoop column fuel
                      ({ s with indent := indent', outerIndents := rest }.emit .blockEnd)
                  else s)
                  ⟨cursor, tokens, count, some i, indent' :: rest, keyAllowed, candidate, outer⟩ :=
                Blind.ite (fun _ => rfl)
                  ⟨hclosed.extend, hclosed.cursor, fun h => hclosed.dated ⟨h.candidate, h.outer⟩⟩
                  blind_id
              exact ⟨hall.extend, hall.cursor, hall.dated⟩

theorem blind_closeBlocks (column : Option Nat) : Blind (closeBlocks · column) s := by
  have hloop := blind_closeBlocksLoop (s := s) column (s.outerIndents.length + 1)
  exact Blind.ite (fun _ => rfl) blind_id ⟨hloop.extend, hloop.cursor, hloop.dated⟩

/-! ## Gaps -/

theorem gapStart_agrees (more : List Char) (h : s.cursor.Inside) :
    (s.extend more).gapStart = s.gapStart.extend more ∧ s.gapStart.Inside ∧
      Ahead 0 s.cursor s.gapStart := by
  have hlong : (s.extend more).gapStart =
      if s.cursor.index == 0 && s.cursor.peek == some '\ufeff' then s.cursor.skip.extend more
      else s.cursor.extend more := by
    have hpeek : (s.cursor.extend more).peek = s.cursor.peek := h.before.peek_extend
    rw [← h.skip_extend, ← hpeek]
    rfl
  rw [hlong, gapStart]
  by_cases hmark : (s.cursor.index == 0 && s.cursor.peek == some '\ufeff') = true
  · rw [if_pos hmark, if_pos hmark]
    rw [Bool.and_eq_true, beq_iff_eq, beq_iff_eq] at hmark
    exact ⟨rfl, h.skip hmark.2 (by decide), h.ahead_skip.weaken (by decide)⟩
  · rw [if_neg hmark, if_neg hmark]
    exact ⟨rfl, h, Ahead.refl⟩

theorem gapStop_agrees (more : List Char) (h : s.cursor.Before) :
    (s.extend more).gapStop = s.gapStop.extend more ∧ s.gapStop.Before ∧
      Ahead 0 s.cursor s.gapStop := by
  rcases h with h | h
  · obtain ⟨hlong, hstart, hahead⟩ := gapStart_agrees more h
    have hblank := hstart.skipWhile (p := s.isGapBlank) rfl
    refine ⟨?_, hblank.skipComment.1.before, ?_⟩
    · rw [gapStop, hlong, gapStop, ← hblank.skipComment_extend, ← hstart.skipWhile_extend rfl]
      rfl
    · exact ((hahead.trans Cursor.ahead_skipWhile).trans hblank.skipComment.2).weaken
        (Nat.zero_le _)
  · have hshort := gapStop_of_peek h.peek_eq (by decide) (s := s) rfl (by decide)
    have hbefore : s.cursor.Before := Or.inr h
    have hlong := gapStop_of_peek (s := s.extend more) (hbefore.peek_extend.trans h.peek_eq)
      (by decide) rfl (by decide)
    rw [hshort, hlong]
    exact ⟨rfl, hbefore, Ahead.refl⟩

theorem skipGap_agrees {fuel fuel' : Nat} (h : s.cursor.Before) (hdated : s.Dated)
    (hfuel : s.cursor.rest.length < fuel) (hfuel' : s.cursor.rest.length < fuel') :
    skipGap fuel' (s.extend more) = (skipGap fuel s).extend more ∧
      Onward 0 s.cursor (skipGap fuel s) := by
  induction fuel generalizing s fuel' with
  | zero => exact absurd hfuel (Nat.not_lt_zero _)
  | succ fuel ih =>
      obtain ⟨fuel', rfl⟩ : ∃ k, fuel' = k + 1 := ⟨fuel' - 1, by omega⟩
      obtain ⟨hlong, hbefore, hahead⟩ := gapStop_agrees more h
      rw [skipGap_succ, skipGap_succ, hlong, hbefore.peek_extend]
      by_cases hbreak : s.gapStop.peek.any isBreak = true
      · rw [if_pos hbreak, if_pos hbreak]
        rw [Option.any_eq_true] at hbreak
        obtain ⟨x, hx, hbreak⟩ := hbreak
        have hinside := hbefore.inside_of_gap hx (by rw [hbreak, Bool.or_true])
        have hmore : Ahead 1 s.cursor s.gapStop.skipBreak :=
          (hahead.trans (hinside.ahead_skipBreak_of_isBreak hx hbreak)).weaken (by decide)
        have hlength := hmore.length
        rw [hinside.skipBreak_extend]
        have hrest := @ih { s with cursor := s.gapStop.skipBreak
                                   keyAllowed := s.keyAllowed || !s.inFlow } fuel'
          hinside.skipBreak (hdated.move hmore _) (by dsimp only; omega) (by dsimp only; omega)
        refine ⟨hrest.1, hrest.2.before, ?_, hrest.2.dated⟩
        exact (hmore.trans hrest.2.ahead).weaken (Nat.zero_le _)
      · rw [if_neg hbreak, if_neg hbreak]
        exact ⟨rfl, hbefore, hahead, hdated.move hahead _⟩

/-! ## Steps -/

theorem indicator_agrees (h : s.cursor.Inside) (hx : s.cursor.peek = some x)
    (hbreak : isBreak x = false) (hdated : s.Dated) (t : Token) :
    Agrees (extend more) (Onward 1 s.cursor) (some (s.indicator 1 t))
      (some ((s.extend more).indicator 1 t)) := by
  have hlong : (s.extend more).indicator 1 t = (s.indicator 1 t).extend more := by
    show ({ s with cursor := (s.cursor.extend more).skip }.emit t : LexerState) = _
    rw [h.skip_extend]
    rfl
  rw [hlong]
  refine Agrees.some ⟨(h.skip hx hbreak).before, h.ahead_skip, ?_⟩
  exact hdated.advance h.ahead_skip _ t

theorem flowStart?_agrees (h : s.cursor.Inside) (hx : s.cursor.peek = some x)
    (hbreak : isBreak x = false) (hdated : s.Dated) (t : Token) :
    Agrees (extend more) (Onward 1 s.cursor) (s.flowStart? t) ((s.extend more).flowStart? t) := by
  refine Agrees.bind (noteCandidate?_agrees hdated) ?_
  rintro s₁ ⟨hcursor, hdated₁⟩
  rw [← hcursor] at h hx ⊢
  refine indicator_agrees (s := { s₁ with
    candidate := none, outerCandidates := s₁.candidate :: s₁.outerCandidates,
    keyAllowed := true }) h hx hbreak ⟨fun k hk => absurd hk (by simp), fun k hk => ?_⟩ t
  rcases List.mem_cons.mp hk with hk | hk
  · exact hdated₁.candidate k hk.symm
  · exact hdated₁.outer k hk

theorem flowEnd?_agrees (h : s.cursor.Inside) (hx : s.cursor.peek = some x)
    (hbreak : isBreak x = false) (hdated : s.Dated) (t : Token) :
    Agrees (extend more) (Onward 1 s.cursor) (s.flowEnd? t) ((s.extend more).flowEnd? t) := by
  refine Agrees.bind (dropCandidate?_agrees hdated) ?_
  rintro s₁ ⟨hcursor, hdated₁⟩
  rw [← hcursor] at h hx ⊢
  obtain ⟨cursor, tokens, count, indent, outerIndents, keyAllowed, candidate, outer⟩ := s₁
  cases outer with
  | nil =>
      exact indicator_agrees
        (s := ⟨cursor, tokens, count, indent, outerIndents, false, candidate, []⟩)
        h hx hbreak ⟨hdated₁.candidate, hdated₁.outer⟩ t
  | cons k outer =>
      refine indicator_agrees (s := ⟨cursor, tokens, count, indent, outerIndents, false, k, outer⟩)
        h hx hbreak ⟨fun k' hk' => ?_, fun k' hk' => ?_⟩ t
      · exact hdated₁.outer k' (List.mem_cons.mpr (Or.inl hk'.symm))
      · exact hdated₁.outer k' (List.mem_cons_of_mem _ hk')

/-- The entry of a block or an explicit key. -/
theorem blockMark_agrees (h : s.cursor.Inside) (hx : s.cursor.peek = some x)
    (hbreak : isBreak x = false) (hdated : s.Dated) (start t : Token)
    (allow : LexerState → Bool) (hallow : ∀ s : LexerState, allow (s.extend more) = allow s) :
    Agrees (extend more) (Onward 1 s.cursor)
      ((s.openBlock s.cursor.column none start).dropCandidate?.bind fun s₁ =>
        some ({ s₁ with keyAllowed := allow s₁ }.indicator 1 t))
      (((s.extend more).openBlock s.cursor.column none start).dropCandidate?.bind fun s₁ =>
        some ({ s₁ with keyAllowed := allow s₁ }.indicator 1 t)) := by
  have hblind := blind_openBlock (s := s) s.cursor.column none start
  rw [hblind.extend]
  refine Agrees.bind (dropCandidate?_agrees (hblind.dated hdated)) ?_
  rintro s₁ ⟨hcursor, hdated₁⟩
  rw [hallow]
  rw [← hblind.cursor, ← hcursor] at h hx ⊢
  exact indicator_agrees (s := { s₁ with keyAllowed := allow s₁ }) h hx hbreak
    ⟨hdated₁.candidate, hdated₁.outer⟩ t

theorem valueMark?_agrees (h : s.cursor.Inside) (hx : s.cursor.peek = some x)
    (hbreak : isBreak x = false) (hdated : s.Dated) :
    Agrees (extend more) (Onward 1 s.cursor) s.valueMark? (s.extend more).valueMark? := by
  cases hcandidate : s.candidate with
  | some k =>
      have hvalue : ∀ s : LexerState, s.candidate = some k → s.valueMark? =
          some ({ (s.insertAt k.position .key).openBlock k.column (some k.position)
            .blockMappingStart with
              candidate := none, keyAllowed := false }.indicator 1 .value) := by
        intro s hs
        rw [valueMark?, hs]
      have hblind := blind_openBlock (s := s.insertAt k.position .key) k.column (some k.position)
        .blockMappingStart
      rw [hvalue s hcandidate, hvalue (s.extend more) hcandidate]
      have hlong : ((s.extend more).insertAt k.position .key).openBlock k.column
          (some k.position) .blockMappingStart = ((s.insertAt k.position .key).openBlock k.column
            (some k.position) .blockMappingStart).extend more := hblind.extend more
      rw [hlong]
      have hcursor := hblind.cursor
      have hopened := hblind.dated ⟨hdated.candidate, hdated.outer⟩
      generalize (s.insertAt k.position .key).openBlock k.column (some k.position)
        .blockMappingStart = s₁ at hcursor hopened
      have hsame : s₁.cursor = s.cursor := hcursor
      rw [← hsame] at h hx ⊢
      exact indicator_agrees (s := { s₁ with candidate := none, keyAllowed := false }) h hx hbreak
        ⟨fun k hk => absurd hk (by simp), hopened.outer⟩ .value
  | none =>
      have hvalue : ∀ s : LexerState, s.candidate = none → s.valueMark? =
          if !s.inFlow && !s.keyAllowed then none
          else
            let s := s.openBlock s.cursor.column none .blockMappingStart
            some ({ s with keyAllowed := !s.inFlow }.indicator 1 .value) := by
        intro s hs
        rw [valueMark?, hs]
      have hblind := blind_openBlock (s := s) s.cursor.column none .blockMappingStart
      rw [hvalue s hcandidate, hvalue (s.extend more) hcandidate]
      refine Agrees.ite (fun _ => Agrees.none) fun _ => ?_
      have hlong : (s.extend more).openBlock (s.extend more).cursor.column none
          .blockMappingStart =
            (s.openBlock s.cursor.column none .blockMappingStart).extend more := hblind.extend more
      rw [hlong]
      have hcursor := hblind.cursor
      have hopened := hblind.dated hdated
      generalize s.openBlock s.cursor.column none .blockMappingStart = s₁ at hcursor hopened
      rw [← hcursor] at h hx ⊢
      exact indicator_agrees (s := { s₁ with keyAllowed := !s₁.inFlow }) h hx hbreak
        ⟨hopened.candidate, hopened.outer⟩ .value

theorem node?_agrees (hdated : s.Dated) {short long : Option (Token × Cursor)}
    (hread : Agrees (Prod.map id (Cursor.extend more)) (fun r => r.2.Before ∧ Ahead 1 s.cursor r.2)
      short long) :
    Agrees (extend more) (Onward 1 s.cursor) (s.node? short) ((s.extend more).node? long) := by
  refine Agrees.bind (noteCandidate?_agrees hdated) ?_
  rintro s₁ ⟨hcursor, hdated₁⟩
  refine Agrees.bind hread ?_
  rintro ⟨t, c⟩ ⟨hbefore, hahead⟩
  refine Agrees.some ⟨hbefore, hahead, ?_⟩
  rw [← hcursor] at hahead
  exact hdated₁.advance hahead false t

theorem atTop?_agrees (hdated : s.Dated) {short long : Option (Token × Cursor)}
    (hread : Agrees (Prod.map id (Cursor.extend more)) (fun r => r.2.Before ∧ Ahead 1 s.cursor r.2)
      short long) :
    Agrees (extend more) (Onward 1 s.cursor) (s.atTop? short) ((s.extend more).atTop? long) := by
  have hblind := blind_closeBlocks (s := s) none
  unfold atTop?
  rw [hblind.extend]
  refine Agrees.bind (dropCandidate?_agrees (hblind.dated hdated)) ?_
  rintro s₁ ⟨hcursor, hdated₁⟩
  refine Agrees.bind hread ?_
  rintro ⟨t, c⟩ ⟨hbefore, hahead⟩
  refine Agrees.some ⟨hbefore, hahead, ?_⟩
  rw [← hblind.cursor, ← hcursor] at hahead
  exact hdated₁.advance hahead false t

/-- The marker of another document in front. -/
theorem marker_agrees {c : Cursor} {mark : Char} (h : c.Inside) (hmark : c.atMarker mark = true)
    (hline : mark ≠ '\n') (t : Token) :
    Agrees (Prod.map id (Cursor.extend more)) (fun r => r.2.Before ∧ Ahead 1 c r.2)
      (some (t, c.skipMany 3)) (some (t, (c.extend more).skipMany 3)) := by
  obtain ⟨r, hr⟩ := h
  simp only [Cursor.atMarker, Bool.and_eq_true, beq_iff_eq] at hmark
  obtain ⟨⟨⟨⟨-, hfirst⟩, hsecond⟩, hthird⟩, -⟩ := hmark
  rw [Cursor.peek, hr] at hfirst
  rw [Cursor.peekAt, hr] at hsecond hthird
  rcases r with _ | ⟨a, _ | ⟨b, _ | ⟨d, r⟩⟩⟩
  · exact absurd (Option.some.inj hfirst).symm hline
  · exact absurd (Option.some.inj hsecond).symm hline
  · exact absurd (Option.some.inj hthird).symm hline
  · obtain ⟨hinside, hahead, heq⟩ := Cursor.inside_skipMany (n := 3) more hr
      (by simp only [List.length_cons]; omega)
    rw [heq]
    exact Cursor.agrees_place ⟨hinside.before, hahead.weaken (by decide)⟩

/-- Where a plain scalar may start, nothing bars it. -/
theorem barsPlain_of_startsPlain {flow : Bool} {next : Option Char}
    (h : startsPlain flow x next = true) : barsPlain flow x next = false ∧ x ≠ '#' := by
  by_cases hdash : x = '-'
  · obtain rfl := hdash
    refine ⟨?_, by decide⟩
    cases flow <;> rfl
  by_cases hmark : x = '?' ∨ x = ':'
  · have hpart : (!flow && !isBlankOrEnd next) = true := by
      rcases hmark with rfl | rfl <;> exact h
    rw [Bool.and_eq_true, Bool.not_eq_true', Bool.not_eq_true'] at hpart
    obtain ⟨rfl, hnext⟩ := hpart
    rcases hmark with rfl | rfl
    · exact ⟨rfl, by decide⟩
    · refine ⟨?_, by decide⟩
      rw [barsPlain, hnext]
      rfl
  · rw [not_or] at hmark
    have hfree : startsPlain flow x next =
        !("-?:,[]\x7b\x7d#&*!|>'\"%@`".toList.contains x) := by
      rw [startsPlain, if_neg (by rwa [beq_iff_eq]), if_neg]
      rw [Bool.or_eq_true, beq_iff_eq, beq_iff_eq, not_or]
      exact hmark
    rw [hfree, Bool.not_eq_true'] at h
    have hne : ∀ y, "-?:,[]\x7b\x7d#&*!|>'\"%@`".toList.contains y = true → x ≠ y := by
      rintro y hy rfl
      rw [h] at hy
      exact absurd hy (by decide)
    have hflow : isFlowIndicator x = false := by
      simp only [isFlowIndicator, Bool.or_eq_false_iff, beq_eq_false_iff_ne]
      exact ⟨⟨⟨⟨hne ',' (by decide), hne '[' (by decide)⟩, hne ']' (by decide)⟩,
        hne '\x7b' (by decide)⟩, hne '\x7d' (by decide)⟩
    have hcolon : (x == ':') = false := beq_eq_false_iff_ne.mpr hmark.2
    refine ⟨?_, hne '#' (by decide)⟩
    rw [barsPlain, hflow, hcolon, Bool.and_false]
    rfl

/-- A reading whose value becomes a token. -/
theorem map_agrees {α : Type} {c : Cursor} {short long : Option (α × Cursor)}
    (h : Agrees (Prod.map id (Cursor.extend more)) (fun r => r.2.Inside ∧ Ahead 1 c r.2) short long)
    (token : α → Token) :
    Agrees (Prod.map id (Cursor.extend more)) (fun r => r.2.Before ∧ Ahead 1 c r.2)
      (short.map fun (a, c) => (token a, c)) (long.map fun (a, c) => (token a, c)) := by
  obtain ⟨rfl, hinside⟩ := h
  cases short with
  | none => exact Agrees.none
  | some r =>
      obtain ⟨hend, hahead⟩ := hinside r rfl
      exact Cursor.agrees_place ⟨hend.before, hahead⟩

theorem blockScalar_agrees {c : Cursor} (hdated : s.Dated) (hcursor : s.cursor = c) (h : c.Inside)
    (hx : c.peek = some x) (hbreak : isBreak x = false) (folded : Bool) (indent : Option Nat) :
    Agrees (extend more) (Onward 1 c)
      ((block? folded indent c).bind fun (text, c) =>
        some ({ s with cursor := c, keyAllowed := true }.emit
          (.scalar (if folded then .folded else .literal) text)))
      ((block? folded indent (c.extend more)).bind fun (text, c) =>
        some ({ s.extend more with cursor := c, keyAllowed := true }.emit
          (.scalar (if folded then .folded else .literal) text))) := by
  refine Agrees.bind (block?_agrees h hx hbreak) ?_
  rintro ⟨text, c⟩ ⟨hend, hahead⟩
  refine Agrees.some ⟨hend, hahead, ?_⟩
  rw [← hcursor] at hahead
  exact hdated.advance hahead true _

theorem plainScalar_agrees {c : Cursor} {flow : Bool} (hdated : s.Dated) (hcursor : s.cursor = c)
    (h : c.Inside) (hmarker : c.atDocumentMarker = false) (hcomment : c.peek ≠ some '#')
    (hstart : c.Unbarred flow) (indent : Nat) :
    Agrees (extend more) (Onward 1 c)
      ((plain? flow indent c).bind fun (text, broken, c) =>
        some ({ s with cursor := c, keyAllowed := broken }.emit (.scalar .plain text)))
      ((plain? flow indent (c.extend more)).bind fun (text, broken, c) =>
        some ({ s.extend more with cursor := c, keyAllowed := broken }.emit
          (.scalar .plain text))) := by
  refine Agrees.bind (plain?_agrees h hmarker hcomment hstart) ?_
  rintro ⟨text, broken, c⟩ ⟨hend, hahead⟩
  refine Agrees.some ⟨hend, hahead, ?_⟩
  rw [← hcursor] at hahead
  exact hdated.advance hahead broken _

/-- **Each step of the lexer** in front of the marker goes on, whatever stands behind it. -/
theorem next?_agrees (h : s.cursor.Inside) (hx : s.cursor.peek = some x) (hdated : s.Dated) :
    Agrees (extend more) (Onward 1 s.cursor) (s.next? x) ((s.extend more).next? x) := by
  have hbefore := h.before
  have hmark : (s.extend more).cursor.atMarker = s.cursor.atMarker :=
    funext fun mark => hbefore.atMarker_extend mark
  have hnext : (s.extend more).cursor.peekAt 1 = s.cursor.peekAt 1 :=
    hbefore.peekAt_extend (by decide)
  have hinside : ∀ {r : Token × Cursor}, r.2.Inside ∧ Ahead 1 s.cursor r.2 →
      r.2.Before ∧ Ahead 1 s.cursor r.2 := fun hr => ⟨hr.1.before, hr.2⟩
  unfold next?
  dsimp only
  rw [hmark, hnext]
  -- the characters in the order of the lexer; none of those that start a token ends a line
  refine Agrees.ite (fun hcase => ?_) fun _ => ?_
  · rw [Bool.and_eq_true, beq_iff_eq (b := '%')] at hcase
    exact atTop?_agrees hdated (directive?_agrees h (hx.trans (congrArg some hcase.2)))
  refine Agrees.ite (fun hcase => ?_) fun hdash => ?_
  · exact atTop?_agrees hdated (marker_agrees h hcase (by decide) _)
  refine Agrees.ite (fun hcase => ?_) fun hdot => ?_
  · exact atTop?_agrees hdated (marker_agrees h hcase (by decide) _)
  refine Agrees.ite (fun hcase => ?_) fun _ => ?_
  · rw [beq_iff_eq] at hcase
    exact flowStart?_agrees h hx (by rw [hcase]; decide) hdated _
  refine Agrees.ite (fun hcase => ?_) fun _ => ?_
  · rw [beq_iff_eq] at hcase
    exact flowStart?_agrees h hx (by rw [hcase]; decide) hdated _
  refine Agrees.ite (fun hcase => ?_) fun _ => ?_
  · rw [beq_iff_eq] at hcase
    exact flowEnd?_agrees h hx (by rw [hcase]; decide) hdated _
  refine Agrees.ite (fun hcase => ?_) fun _ => ?_
  · rw [beq_iff_eq] at hcase
    exact flowEnd?_agrees h hx (by rw [hcase]; decide) hdated _
  refine Agrees.ite (fun hcase => ?_) fun _ => ?_
  · rw [beq_iff_eq] at hcase
    refine Agrees.bind (dropCandidate?_agrees hdated) ?_
    rintro s₁ ⟨hcursor, hdated₁⟩
    rw [← hcursor] at h hx ⊢
    exact indicator_agrees (s := { s₁ with keyAllowed := true }) h hx (by rw [hcase]; decide)
      ⟨hdated₁.candidate, hdated₁.outer⟩ _
  refine Agrees.ite (fun hcase => ?_) fun _ => ?_
  · rw [Bool.and_eq_true, beq_iff_eq] at hcase
    refine Agrees.ite (fun _ => Agrees.none) fun _ => ?_
    exact blockMark_agrees h hx (by rw [hcase.1]; decide) hdated .blockSequenceStart .blockEntry
      (fun _ => true) fun _ => rfl
  refine Agrees.ite (fun hcase => ?_) fun _ => ?_
  · rw [Bool.and_eq_true, beq_iff_eq] at hcase
    refine Agrees.ite (fun _ => Agrees.none) fun _ => ?_
    exact blockMark_agrees h hx (by rw [hcase.1]; decide) hdated .blockMappingStart .key
      (fun s => !s.inFlow) fun _ => rfl
  refine Agrees.ite (fun hcase => ?_) fun _ => ?_
  · rw [Bool.and_eq_true, beq_iff_eq] at hcase
    exact valueMark?_agrees h hx (by rw [hcase.1]; decide) hdated
  refine Agrees.ite (fun hcase => ?_) fun _ => ?_
  · rw [beq_iff_eq] at hcase
    exact node?_agrees hdated (map_agrees (anchorName?_agrees h hx (by rw [hcase]; decide)) _)
  refine Agrees.ite (fun hcase => ?_) fun _ => ?_
  · rw [beq_iff_eq] at hcase
    exact node?_agrees hdated (map_agrees (anchorName?_agrees h hx (by rw [hcase]; decide)) _)
  refine Agrees.ite (fun hcase => ?_) fun _ => ?_
  · rw [beq_iff_eq] at hcase
    exact node?_agrees hdated
      ((tag?_agrees h (hx.trans (congrArg some hcase))).mono fun _ hr => hinside hr)
  refine Agrees.ite (fun hcase => ?_) fun _ => ?_
  · rw [Bool.and_eq_true, Bool.or_eq_true, beq_iff_eq, beq_iff_eq] at hcase
    have hbreak : isBreak x = false := by
      rcases hcase.1 with hx | hx <;> rw [hx] <;> decide
    refine Agrees.bind (dropCandidate?_agrees hdated) ?_
    rintro s₁ ⟨hcursor, hdated₁⟩
    exact blockScalar_agrees hdated₁ hcursor h hx hbreak _ _
  refine Agrees.ite (fun hcase => ?_) fun _ => ?_
  · rw [beq_iff_eq] at hcase
    exact node?_agrees hdated (map_agrees (quoted?_agrees h hx (by rw [hcase]; decide)) _)
  refine Agrees.ite (fun hcase => ?_) fun _ => ?_
  · rw [beq_iff_eq] at hcase
    exact node?_agrees hdated (map_agrees (quoted?_agrees h hx (by rw [hcase]; decide)) _)
  refine Agrees.ite (fun hcase => ?_) fun _ => Agrees.none
  obtain ⟨hbars, hcomment⟩ := barsPlain_of_startsPlain hcase
  have hmarker : s.cursor.atDocumentMarker = false := by
    rw [Cursor.atDocumentMarker, Bool.eq_false_iff.mpr hdash, Bool.eq_false_iff.mpr hdot]
    rfl
  have hhash : s.cursor.peek ≠ some '#' := by
    rw [hx, Ne, Option.some.injEq]
    exact hcomment
  refine Agrees.bind (noteCandidate?_agrees hdated) ?_
  rintro s₁ ⟨hcursor, hdated₁⟩
  exact plainScalar_agrees hdated₁ hcursor h hmarker hhash ⟨x, hx, hbars⟩ _

end LexerState

end SourceEdit.Yaml
