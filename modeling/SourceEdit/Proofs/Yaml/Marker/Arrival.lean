import SourceEdit.Proofs.Yaml.Marker.Lexer

/-!
# Arriving behind a marker

Whatever follows the line of a marker, the lexer either stops at the same fault in front of it or
arrives behind it in the same state: no candidate is left there, and unless a bracket is open all
blocks are closed.
-/

namespace SourceEdit.Yaml

open Cursor (Ahead extend_length_le)

namespace LexerState

variable {s s' : LexerState} {more : List Char}

/-! ## Closing all blocks -/

theorem closeBlocksLoop_none {fuel : Nat} (h : Nested s.indent s.outerIndents)
    (hfuel : s.outerIndents.length ≤ fuel) :
    (closeBlocksLoop none fuel s).indent = none ∧
      (closeBlocksLoop none fuel s).outerIndents = [] := by
  induction fuel generalizing s with
  | zero =>
      obtain ⟨cursor, tokens, count, indent, outerIndents, keyAllowed, candidate, outer⟩ := s
      obtain rfl : outerIndents = [] := List.eq_nil_of_length_eq_zero (Nat.le_zero.mp hfuel)
      cases indent with
      | none => exact ⟨rfl, rfl⟩
      | some i => exact absurd h (by simp [Nested])
  | succ fuel ih =>
      obtain ⟨cursor, tokens, count, indent, outerIndents, keyAllowed, candidate, outer⟩ := s
      cases indent with
      | none =>
          cases outerIndents with
          | nil => exact ⟨rfl, rfl⟩
          | cons indent' rest => exact absurd h (by simp [Nested])
      | some i =>
          cases outerIndents with
          | nil => exact absurd h (by simp [Nested])
          | cons indent' rest =>
              exact ih (s := ⟨cursor, .blockEnd :: tokens, count + 1, indent', rest, keyAllowed,
                candidate, outer⟩) h (Nat.le_of_succ_le_succ hfuel)

theorem closeBlocks_none (h : Nested s.indent s.outerIndents) (hflow : s.inFlow = false) :
    (s.closeBlocks none).indent = none ∧ (s.closeBlocks none).outerIndents = [] := by
  have hloop : s.closeBlocks none = closeBlocksLoop none (s.outerIndents.length + 1) s :=
    if_neg (by rw [hflow]; exact Bool.false_ne_true)
  rw [hloop]
  exact closeBlocksLoop_none h (Nat.le_succ _)

/-- One state comes from another by closing `k` blocks: only their ends are put behind the
tokens. -/
structure Closing (k : Nat) (s s' : LexerState) : Prop where
  tokens : s'.tokens = List.replicate k .blockEnd ++ s.tokens
  length : s'.outerIndents.length + k = s.outerIndents.length
  candidate : s'.candidate = s.candidate
  outerCandidates : s'.outerCandidates = s.outerCandidates

theorem Closing.refl (s : LexerState) : Closing 0 s s := ⟨rfl, rfl, rfl, rfl⟩

theorem closing_closeBlocksLoop (s : LexerState) (column : Option Nat) (fuel : Nat) :
    ∃ k, Closing k s (closeBlocksLoop column fuel s) := by
  induction fuel generalizing s with
  | zero => exact ⟨0, Closing.refl s⟩
  | succ fuel ih =>
      unfold closeBlocksLoop
      split
      · next i outer rest hindent houter =>
        split
        · obtain ⟨k, hk⟩ := ih ({ s with indent := outer, outerIndents := rest }.emit .blockEnd)
          refine ⟨k + 1, ?_, ?_, hk.candidate, hk.outerCandidates⟩
          · rw [hk.tokens, List.replicate_succ', List.append_assoc]
            rfl
          · rw [houter, List.length_cons, ← Nat.add_assoc, hk.length]
            rfl
        · exact ⟨0, Closing.refl s⟩
      · exact ⟨0, Closing.refl s⟩

theorem closing_closeBlocks (s : LexerState) (column : Option Nat) :
    ∃ k, Closing k s (s.closeBlocks column) := by
  unfold closeBlocks
  split
  · exact ⟨0, Closing.refl s⟩
  · exact closing_closeBlocksLoop s column _

theorem closeBlocks_outerCandidates (column : Option Nat) :
    (s.closeBlocks column).outerCandidates = s.outerCandidates :=
  (closing_closeBlocks s column).choose_spec.outerCandidates

theorem closeBlocks_candidate (column : Option Nat) :
    (s.closeBlocks column).candidate = s.candidate :=
  (closing_closeBlocks s column).choose_spec.candidate

/-- In the end all blocks that were open have got their ends, whichever of them were closed
before. -/
theorem closeBlocks_tokens (column : Option Nat) (htracked : Tracked [] s)
    (hflow : s.outerCandidates = []) :
    ((s.closeBlocks column).closeBlocks none).tokens =
      List.replicate s.outerIndents.length .blockEnd ++ s.tokens := by
  have hflow' : (s.closeBlocks column).inFlow = false := by
    rw [inFlow, closeBlocks_outerCandidates, hflow]
    rfl
  have hclosed := (closeBlocks_none (htracked.closeBlocks column).nested hflow').2
  obtain ⟨k, hk⟩ := closing_closeBlocks s column
  obtain ⟨k', hk'⟩ := closing_closeBlocks (s.closeBlocks column) none
  have hall : k' + k = s.outerIndents.length := by
    rw [← hk.length, ← hk'.length, hclosed, List.length_nil, Nat.zero_add]
  rw [hk'.tokens, hk.tokens, ← hall, ← List.replicate_append_replicate, List.append_assoc]

/-! ## Arrival -/

/-- Right behind the marker, where only the end of its line is left. -/
structure Arrived (s : LexerState) : Prop where
  rest : s.cursor.rest = ['\n']
  keyAllowed : s.keyAllowed = false
  candidate : s.candidate = none
  marked : ∃ ts, s.tokens = .documentStart :: ts
  closed : s.outerCandidates = [] → s.indent = none ∧ s.outerIndents = []
  dated : s.Dated
  tracked : Tracked [] s

/-- At a marker, whatever stands there is ended. -/
theorem next?_of_marker (h : s.cursor.atMarker '-' = true) :
    s.next? '-' = s.atTop? (some (.documentStart, s.cursor.skipMany 3)) := by
  have hdash : ('-' == '%') = false := by decide
  unfold next?
  dsimp only
  rw [hdash, Bool.and_false, if_neg Bool.false_ne_true, if_pos h]

/-- The marker is read alike, whatever follows its line. -/
theorem next?_atMarker (h : s.cursor.AtMarker) (hdated : s.Dated) (htracked : Tracked [] s)
    (more : List Char) :
    Agrees (extend more) Arrived (s.next? '-') ((s.extend more).next? '-') := by
  have hbefore : s.cursor.Before := Or.inr h
  have hlong : (s.cursor.extend more).skipMany 3 = (s.cursor.skipMany 3).extend more :=
    Cursor.skipMany_extend (Nat.le_of_succ_le hbefore.length_le)
  rw [next?_of_marker h.atMarker_eq, next?_of_marker (s := s.extend more)
    ((hbefore.atMarker_extend _).trans h.atMarker_eq)]
  -- closing the blocks and dropping the candidate look at nothing behind the cursor
  have hblind := blind_closeBlocks (s := s) none
  have hdrop := @dropCandidate?_agrees _ more (hblind.dated hdated)
  rw [← hblind.extend more] at hdrop
  have harrive : Agrees (extend more) (fun s₁ => Arrived
      ({ s₁ with cursor := s.cursor.skipMany 3, keyAllowed := false }.emit .documentStart))
      (s.closeBlocks none).dropCandidate? ((s.extend more).closeBlocks none).dropCandidate? := by
    refine ⟨hdrop.1, fun s₁ hs₁ => ?_⟩
    obtain ⟨hcursor, hdated₁⟩ := hdrop.2 s₁ hs₁
    have htracked₁ := (htracked.closeBlocks none).dropCandidate? hs₁
    have hs₁ : { s.closeBlocks none with candidate := none } = s₁ :=
      cases_of_ite hs₁ (fun hnone => absurd hnone (by simp)) Option.some.inj
    have hahead : Ahead 3 s₁.cursor (s.cursor.skipMany 3) := by
      rw [hcursor, hblind.cursor]
      exact Cursor.ahead_skipMany (Nat.le_of_succ_le hbefore.length_le)
    exact
      { rest := by
          show (s.cursor.skipMany 3).rest = ['\n']
          rw [Cursor.skipMany_eq (Nat.le_of_succ_le hbefore.length_le), h.1]
          rfl
        keyAllowed := rfl
        candidate := by
          rw [← hs₁]
          rfl
        marked := ⟨_, rfl⟩
        closed := fun houter => by
          rw [← hs₁] at houter ⊢
          have hflow : s.outerCandidates = [] :=
            (closeBlocks_outerCandidates none).symm.trans houter
          exact closeBlocks_none htracked.nested (by rw [inFlow, hflow]; rfl)
        dated := hdated₁.advance hahead false .documentStart
        tracked := (htracked₁.move _ false).emit ⟨fun _ => rfl, by decide⟩ }
  refine Agrees.bind harrive fun s₁ harrived => ?_
  show Agrees _ _ (some _) (some ({ s₁ with
    cursor := (s.cursor.extend more).skipMany 3, keyAllowed := false }.emit .documentStart))
  rw [hlong]
  exact Agrees.some harrived

/-- Two readings stop at the same fault, or come from the same state behind the marker with at least
as many steps left as given. -/
def Joins (more : List Char) (m m' : Nat) (short long : List Token) : Prop :=
  (long = short ∧ .streamEnd ∉ short) ∨ ∃ s n n', Arrived s ∧ m ≤ n ∧ m' ≤ n' ∧ short = run n s ∧
    long = run n' (s.extend more)

theorem Joins.mono {m m' l l' : Nat} {short long : List Token} (h : Joins more m m' short long)
    (hl : l ≤ m) (hl' : l' ≤ m') : Joins more l l' short long := by
  rcases h with h | ⟨s, n, n', hs, hn, hn', hshort, hlong⟩
  · exact Or.inl h
  · exact Or.inr ⟨s, n, n', hs, Nat.le_trans hl hn, Nat.le_trans hl' hn', hshort, hlong⟩

theorem scan_joins {fuel fuel' m m' : Nat} (h : s.cursor.Before) (hdated : s.Dated)
    (htracked : Tracked [] s) (hm : m ≤ fuel) (hm' : m' ≤ fuel')
    (hrun : ∀ s' : LexerState, s'.cursor.Before → s'.Dated → Tracked [] s' →
      s'.cursor.rest.length < s.cursor.rest.length →
        Joins more m m' (run fuel s') (run fuel' (s'.extend more))) :
    Joins more m m' (scan fuel s) (scan fuel' (s.extend more)) := by
  have hblind := blind_closeBlocks (s := s) (some s.cursor.column)
  have hlong : (s.extend more).closeBlocks (some (s.extend more).cursor.column) =
      (s.closeBlocks (some s.cursor.column)).extend more := hblind.extend more
  have hclosed := htracked.closeBlocks (some s.cursor.column)
  have hdated₁ := hblind.dated hdated
  have hcursor : (s.closeBlocks (some s.cursor.column)).cursor = s.cursor := hblind.cursor
  unfold scan
  dsimp only
  rw [hlong]
  generalize s.closeBlocks (some s.cursor.column) = s₁ at hclosed hdated₁ hcursor
  rw [← hcursor] at h hrun
  obtain ⟨x, hx⟩ := h.peek_eq_some
  have hx' : (s₁.extend more).cursor.peek = some x := h.peek_extend.trans hx
  rw [hx, hx']
  dsimp only
  by_cases hmarker : s₁.cursor.AtMarker
  · obtain rfl : '-' = x := Option.some.inj (hmarker.peek_eq.symm.trans hx)
    obtain ⟨heq, harrived⟩ := next?_atMarker hmarker hdated₁ hclosed more
    rw [heq]
    cases hs₂ : s₁.next? '-' with
    | none => exact Or.inl ⟨rfl, hclosed.unended_fault⟩
    | some s₂ => exact Or.inr ⟨s₂, fuel, fuel', harrived s₂ hs₂, hm, hm', rfl, rfl⟩
  · have hinside : s₁.cursor.Inside := h.resolve_right hmarker
    obtain ⟨heq, honward⟩ := @next?_agrees _ more _ hinside hx hdated₁
    rw [heq]
    cases hs₂ : s₁.next? x with
    | none => exact Or.inl ⟨rfl, hclosed.unended_fault⟩
    | some s₂ =>
        obtain ⟨hbefore, hahead, hdated₂⟩ := honward s₂ hs₂
        exact hrun s₂ hbefore hdated₂ (hclosed.next? hs₂) hahead.length

/-- **In front of a marker**, the lexer stops at the same fault or arrives in the same state,
whatever follows the line of the marker. -/
theorem run_joins (more : List Char) {fuel fuel' : Nat} (h : s.cursor.Before) (hdated : s.Dated)
    (htracked : Tracked [] s) (hfuel : s.cursor.rest.length < fuel)
    (hfuel' : s.cursor.rest.length < fuel') :
    Joins more (fuel + 1 - s.cursor.rest.length) (fuel' + 1 - s.cursor.rest.length)
      (run fuel s) (run fuel' (s.extend more)) := by
  induction fuel generalizing s fuel' with
  | zero => exact absurd hfuel (Nat.not_lt_zero _)
  | succ fuel ih =>
      -- each token takes characters away, so that the steps left cover what is left of the text
      obtain ⟨fuel', rfl⟩ : ∃ k, fuel' = k + 1 := ⟨fuel' - 1, by omega⟩
      have hmore : s.cursor.rest.length ≤ (s.extend more).cursor.rest.length := extend_length_le
      obtain ⟨hgap, honward⟩ := @skipGap_agrees s more (s.cursor.rest.length + 1)
        ((s.extend more).cursor.rest.length + 1) h hdated (by omega) (by omega)
      have hgapped := htracked.skipGap (s.cursor.rest.length + 1)
      rw [run_succ, run_succ, hgap]
      generalize skipGap (s.cursor.rest.length + 1) s = s₁ at honward hgapped
      have hstale := @dropStale?_agrees _ more honward.dated
      rw [hstale.1]
      cases hs₂ : s₁.dropStale? with
      | none => exact Or.inl ⟨rfl, hgapped.unended_fault⟩
      | some s₂ =>
          obtain ⟨hcursor, hdated₂⟩ := hstale.2 s₂ hs₂
          have hbefore := honward.before
          have hlength := honward.ahead.length
          have hfour := hbefore.length_le
          rw [← hcursor] at hbefore hlength hfour
          refine scan_joins hbefore hdated₂ (hgapped.dropStale? hs₂) (by omega) (by omega) ?_
          intro s₃ hbefore₃ hdated₃ htracked₃ hlength₃
          exact (ih hbefore₃ hdated₃ htracked₃ (by omega) (by omega)).mono (by omega) (by omega)

/-! ## Behind the marker -/

theorem line_gapStop : s.gapStop.line = s.cursor.line := by
  have hstart : s.gapStart.line = s.cursor.line := by
    unfold gapStart
    split
    · unfold Cursor.skip
      split <;> rfl
    · rfl
  unfold gapStop Cursor.skipComment
  split
  · exact hstart
  · exact hstart

theorem line_skipBreak (c : Cursor) : c.line ≤ c.skipBreak.line := by
  unfold Cursor.skipBreak
  split
  · exact Nat.le_succ _
  · split
    · exact Nat.le_succ _
    · exact Nat.le_refl _
  · exact Nat.le_refl _

/-- A gap moves the cursor only, and to no earlier line. -/
theorem skipGap_keeps (fuel : Nat) :
    ∃ c b, skipGap fuel s = { s with cursor := c, keyAllowed := b } ∧
      s.cursor.line ≤ c.line := by
  induction fuel generalizing s with
  | zero => exact ⟨s.cursor, s.keyAllowed, rfl, Nat.le_refl _⟩
  | succ fuel ih =>
      rw [skipGap_succ]
      split
      · obtain ⟨c, b, heq, hline⟩ := @ih { s with cursor := s.gapStop.skipBreak
                                                  keyAllowed := s.keyAllowed || !s.inFlow }
        refine ⟨c, b, heq, Nat.le_trans ?_ hline⟩
        rw [← line_gapStop (s := s)]
        exact line_skipBreak _
      · exact ⟨s.gapStop, s.keyAllowed, rfl, Nat.le_of_eq line_gapStop.symm⟩

/-- Behind the end of its line, no candidate can become a key any more: the tokens stand. -/
theorem run_behind {r : List Char} {n : Nat} (hrest : s.cursor.rest = '\n' :: r) (hdated : s.Dated)
    (htracked : Tracked [] s) : ∃ behind, run (n + 1) s = s.tokens.reverse ++ behind := by
  -- the gap leads to a later line than any candidate is on, so all of them are stale there
  obtain ⟨c, b, hgap, hline⟩ : ∃ c b, skipGap (s.cursor.rest.length + 1) s =
      { s with cursor := c, keyAllowed := b } ∧ s.cursor.line < c.line := by
    rw [skipGap_of_lineEnd _ hrest]
    obtain ⟨c, b, heq, hline⟩ := skipGap_keeps (s := { s with
      cursor := ⟨r, s.cursor.index + 1, s.cursor.line + 1, 0⟩
      keyAllowed := s.keyAllowed || !s.inFlow }) s.cursor.rest.length
    exact ⟨c, b, heq, hline⟩
  rw [run_succ, hgap]
  cases hstale : ({ s with cursor := c, keyAllowed := b } : LexerState).dropStale? with
  | none => exact ⟨[.unreadable], List.reverse_cons⟩
  | some s₁ =>
      have htracked₁ := (htracked.move c b).dropStale? hstale
      have hstales : ∀ k : KeyCandidate, k.line ≤ s.cursor.line → isStale c k = true := by
        intro k hk
        rw [isStale, Bool.or_eq_true, decide_eq_true_eq]
        exact Or.inl (Nat.lt_of_le_of_lt hk hline)
      unfold dropStale? at hstale
      dsimp only at hstale
      split at hstale
      · exact absurd hstale (by simp)
      · have heq := Option.some.inj hstale
        have htokens : s₁.tokens = s.tokens := by
          rw [← heq]
        have hcandidate : ∀ k, s₁.candidate ≠ some k := by
          intro k hk
          rw [← heq] at hk
          dsimp only at hk
          split at hk
          · exact absurd hk (by simp)
          · next hfresh =>
            rw [hk, Option.any_some] at hfresh
            exact hfresh (hstales k (hdated.candidate k hk))
        have houter : ∀ k, some k ∉ s₁.outerCandidates := by
          intro k hk
          rw [← heq] at hk
          obtain ⟨k', hk', hkeep⟩ := List.mem_map.mp hk
          split at hkeep
          · exact absurd hkeep (by simp)
          · next hfresh =>
            obtain rfl := hkeep
            exact hfresh (hstales k (hdated.outer k hk'))
        have hgrown : Tracked s.tokens s₁ := { htracked₁ with
          grown := ⟨[], htokens⟩
          candidate := fun k hk => absurd hk (hcandidate k)
          outer := fun k hk => absurd hk (houter k) }
        exact hgrown.scan fun s hs => hs.run n

/-- Where nothing is open and nothing follows, the stream ends. -/
theorem run_lastLine (hrest : s.cursor.rest = ['\n']) (hcandidate : s.candidate = none)
    (hflow : s.outerCandidates = []) (hindent : s.indent = none) (houter : s.outerIndents = [])
    (n : Nat) : run (n + 1) s = s.tokens.reverse ++ [.streamEnd] := by
  have hgap : skipGap (s.cursor.rest.length + 1) s =
      ⟨⟨[], s.cursor.index + 1, s.cursor.line + 1, 0⟩, s.tokens, s.count, none, [], true, none,
        []⟩ := by
    rw [skipGap_of_lineEnd _ hrest, hrest]
    refine (skipGap_of_end 0 rfl).trans ?_
    rw [hindent, houter, hcandidate, hflow, inFlow, hflow]
    simp
  exact (run_of_gap n hgap rfl).trans List.reverse_cons

theorem Arrived.run_end (h : s.Arrived) (hflow : s.outerCandidates = []) (n : Nat) :
    run (n + 1) s = s.tokens.reverse ++ [.streamEnd] := by
  obtain ⟨hindent, houter⟩ := h.closed hflow
  exact run_lastLine h.rest h.candidate hflow hindent houter n

end LexerState

end SourceEdit.Yaml
