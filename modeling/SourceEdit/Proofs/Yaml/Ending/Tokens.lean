import SourceEdit.Proofs.Yaml.Ending.Lexer
import SourceEdit.Proofs.Yaml.Marker.Documents

/-!
# The tokens of a text that gets the line of a marker

With the line of a marker behind a text whose brackets are closed, one more document begins at the
end of its tokens. Nothing else changes, unless a block scalar is open at the end of the text and
gets a line feed more.
-/

namespace SourceEdit.Yaml

namespace LexerState

variable {s s' : LexerState} {X : List Token} {m n : Nat}

theorem fault_ne_end : (s.emit .unreadable).tokens.reverse ≠ X ++ [.streamEnd] := by
  intro h
  have hreverse : (s.emit .unreadable).tokens.reverse = s.tokens.reverse ++ [.unreadable] :=
    List.reverse_cons
  rw [hreverse] at h
  exact absurd (List.append_inj_right' h rfl) (by decide)

/-! ## At the end of the text -/

/-- Whether a node waits for a colon that has to come. -/
def awaitsColon (s : LexerState) : Bool := s.candidate.any (·.required)

/-- The tokens with the ends of all blocks that are open, the latest first. -/
def closedTokens (s : LexerState) : List Token :=
  List.replicate s.outerIndents.length .blockEnd ++ s.tokens

theorem dropStale?_keeps (h : s.dropStale? = some s') :
    s'.awaitsColon = s.awaitsColon ∧ s'.closedTokens = s.closedTokens ∧
      s'.cursor = s.cursor ∧ s'.outerCandidates.length = s.outerCandidates.length := by
  unfold dropStale? at h
  dsimp only at h
  split at h
  · exact absurd h (by simp)
  · next hfault =>
    rw [Bool.or_eq_true, not_or, Bool.and_eq_true, not_and] at hfault
    obtain rfl := Option.some.inj h
    refine ⟨?_, rfl, rfl, List.length_map _⟩
    unfold awaitsColon
    dsimp only
    split
    · next hstale =>
      rw [Bool.not_eq_true] at hfault
      exact (hfault.1 hstale).symm
    · rfl

/-- Where no colon has to come and no bracket is open, no candidate is at fault. -/
theorem dropStale?_isSome (hawaits : s.awaitsColon = false) (hflow : s.outerCandidates = []) :
    ∃ s', s.dropStale? = some s' := by
  have hrequired : s.candidate.any (·.required) = false := hawaits
  unfold dropStale?
  refine ⟨_, if_neg ?_⟩
  simp only [hflow, hrequired, Bool.and_false, List.any_nil, Bool.or_self, Bool.false_eq_true,
    not_false_eq_true]

theorem dropCandidate?_eq_some_iff :
    s.dropCandidate? = some s' ↔ s.awaitsColon = false ∧ s' = { s with candidate := none } := by
  unfold dropCandidate?
  cases hawaits : s.awaitsColon with
  | true =>
      rw [if_pos (show s.candidate.any (·.required) = true from hawaits)]
      simp
  | false =>
      rw [if_neg (by rw [show s.candidate.any (·.required) = false from hawaits]; simp)]
      simp [eq_comm]

/-- Closing blocks keeps what is waited for, and the tokens that there are in the end. -/
theorem closeBlocks_awaitsColon (s : LexerState) (column : Option Nat) :
    (s.closeBlocks column).awaitsColon = s.awaitsColon := by
  rw [awaitsColon, closeBlocks_candidate]
  rfl

/-- At the end of the text, a stream that ends has got the ends of all blocks. -/
theorem scan_of_end (hrest : s.cursor.rest = []) (htracked : Tracked [] s)
    (hX : scan n s = X ++ [.streamEnd]) (hdepth : depthAfter 0 X = 0) :
    s.awaitsColon = false ∧ s.outerCandidates = [] ∧ X = s.closedTokens.reverse := by
  have hpeek : (s.closeBlocks (some s.cursor.column)).cursor.peek = none := by
    rw [(blind_closeBlocks (s := s) (some s.cursor.column)).cursor]
    exact Cursor.rest_eq_nil_iff.mp hrest
  unfold scan at hX
  dsimp only at hX
  rw [hpeek] at hX
  cases hfinish : (s.closeBlocks (some s.cursor.column)).finish? with
  | none =>
      rw [hfinish] at hX
      exact absurd hX fault_ne_end
  | some s₂ =>
      obtain ⟨s₁, hdrop, hs₂⟩ := Option.bind_eq_some_iff.mp hfinish
      obtain rfl := Option.some.inj hs₂
      obtain ⟨hawaits, rfl⟩ := dropCandidate?_eq_some_iff.mp hdrop
      rw [closeBlocks_awaitsColon, closeBlocks_awaitsColon] at hawaits
      rw [hfinish] at hX
      have htokens :
          ((s.closeBlocks (some s.cursor.column)).closeBlocks none).tokens.reverse = X := by
        have hreverse : (Token.streamEnd ::
            ((s.closeBlocks (some s.cursor.column)).closeBlocks none).tokens).reverse =
              X ++ [.streamEnd] := hX
        rw [List.reverse_cons] at hreverse
        exact List.append_inj_left' hreverse rfl
      have hflow : s.outerCandidates = [] := by
        have hopen := ((htracked.closeBlocks (some s.cursor.column)).closeBlocks none).depth
        rw [htokens, hdepth, closeBlocks_outerCandidates, closeBlocks_outerCandidates] at hopen
        exact List.eq_nil_of_length_eq_zero hopen
      refine ⟨hawaits, hflow, ?_⟩
      rw [← htokens, closeBlocks_tokens _ htracked hflow]
      rfl

/-- The marker closes what is open and leaves the end of its line. -/
theorem next?_closes (hmarker : s.cursor.AtMarker) (hnested : Nested s.indent s.outerIndents)
    (hawaits : s.awaitsColon = false) (hflow : s.outerCandidates = []) :
    ∃ s', s.next? '-' = some s' ∧ s'.cursor.rest = ['\n'] ∧ s'.candidate = none ∧
      s'.outerCandidates = [] ∧ s'.indent = none ∧ s'.outerIndents = [] ∧
      s'.tokens = .documentStart :: (s.closeBlocks none).tokens := by
  obtain ⟨hindent, houter⟩ := closeBlocks_none hnested (by rw [inFlow, hflow]; rfl)
  have hflow' : (s.closeBlocks none).outerCandidates = [] :=
    (closeBlocks_outerCandidates none).trans hflow
  have hdrop : (s.closeBlocks none).dropCandidate? =
      some { s.closeBlocks none with candidate := none } :=
    dropCandidate?_eq_some_iff.mpr ⟨(closeBlocks_awaitsColon s none).trans hawaits, rfl⟩
  have hrest : (s.cursor.skipMany 3).rest = ['\n'] := by
    rw [Cursor.skipMany_eq (by rw [hmarker.1]; decide), hmarker.1]
    rfl
  rw [next?_of_marker hmarker.atMarker_eq, atTop?, hdrop]
  exact ⟨_, rfl, hrest, rfl, hflow', hindent, houter, rfl⟩

/-- At the marker, a document begins behind the ends of all blocks. -/
theorem scan_of_marker (hmarker : s.cursor.AtMarker) (htracked : Tracked [] s)
    (hawaits : s.awaitsColon = false) (hflow : s.outerCandidates = []) (hn : 0 < n) :
    scan n s = s.closedTokens.reverse ++ [.documentStart, .streamEnd] := by
  obtain ⟨n, rfl⟩ : ∃ k, n = k + 1 := ⟨n - 1, by omega⟩
  have hcursor : (s.closeBlocks (some s.cursor.column)).cursor = s.cursor :=
    (blind_closeBlocks (some s.cursor.column)).cursor
  have hpeek : (s.closeBlocks (some s.cursor.column)).cursor.peek = some '-' := by
    rw [hcursor, hmarker.peek_eq]
  obtain ⟨s₁, hstep, hrest, hcandidate, hflow₁, hindent, houter, htokens⟩ :=
    next?_closes (s := s.closeBlocks (some s.cursor.column)) (by rw [hcursor]; exact hmarker)
      (htracked.closeBlocks _).nested ((closeBlocks_awaitsColon s _).trans hawaits)
      ((closeBlocks_outerCandidates _).trans hflow)
  rw [scan_of_next (n + 1) rfl hpeek hstep, run_lastLine hrest hcandidate hflow₁ hindent houter, htokens,
    closeBlocks_tokens _ htracked hflow, List.reverse_cons, List.append_assoc]
  rfl

/-! ## Runs -/

/-- The second stream is the first with a document begun at its end, and with a line feed more in
the block scalar that was open there. -/
def Gained (short long : List Token) : Prop :=
  ∃ ts t t' k, GainsFeed t t' ∧
    short = ts ++ t :: (List.replicate k .blockEnd ++ [.streamEnd]) ∧
    long = ts ++ t' :: (List.replicate k .blockEnd ++ [.documentStart, .streamEnd])

/-- The line feed more is not nothing: it tells the two streams apart. -/
theorem Gained.ne {short long : List Token} (h : Gained short long)
    (hshort : short = X ++ [.streamEnd]) :
    long ≠ X ++ [.documentStart, .streamEnd] := by
  obtain ⟨ts, t, t', k, ht, rfl, rfl⟩ := h
  rw [← List.cons_append, ← List.append_assoc] at hshort
  obtain rfl := List.append_inj_left' hshort rfl
  rw [List.append_assoc, List.cons_append]
  intro hlong
  have hsame := (List.cons_eq_cons.mp (List.append_cancel_left hlong)).1
  cases ht with
  | literal v | folded v =>
      have hlength := congrArg String.length (Token.scalar.inj hsame).2
      rw [String.length_append] at hlength
      exact absurd hlength (by simp)

/-- The streams from the end of the text and from the marker. -/
theorem Ends.closedTokens (h : Ends s s') :
    s'.closedTokens.reverse ++ [.documentStart, .streamEnd] =
        s.closedTokens.reverse ++ [.documentStart, .streamEnd] ∨
      Gained (s.closedTokens.reverse ++ [.streamEnd])
        (s'.closedTokens.reverse ++ [.documentStart, .streamEnd]) := by
  have htokens := h.tokens
  unfold LexerState.closedTokens
  rw [h.outerIndents]
  generalize s.tokens = ts at htokens
  generalize s'.tokens = ts' at htokens
  cases htokens with
  | same => exact Or.inl rfl
  | @gains t t' earlier ht hts =>
      subst hts
      have hreverse : ∀ (u : Token) (more : List Token),
          (List.replicate s.outerIndents.length Token.blockEnd ++ u :: earlier).reverse ++ more =
            earlier.reverse ++ u :: (List.replicate s.outerIndents.length .blockEnd ++ more) := by
        intro u more
        rw [List.reverse_append, List.reverse_cons, List.reverse_replicate]
        simp only [List.append_assoc, List.cons_append, List.nil_append]
      exact Or.inr ⟨_, t, t', _, ht, hreverse t _, hreverse t' _⟩

/-- A step that does not start at the end of the text, and what comes of it. -/
theorem scan_marked (htracked : Tracked [] s) (htracked' : Tracked [] s.marked)
    (hne : s.cursor.rest ≠ []) (hX : scan n s = X ++ [.streamEnd])
    (hrun : ∀ s₁ s₁', Tracked [] s₁ → Tracked [] s₁' → Goes s₁ s₁' →
      run n s₁ = X ++ [.streamEnd] →
        run m s₁' = X ++ [.documentStart, .streamEnd] ∨ Gained (X ++ [.streamEnd]) (run m s₁')) :
    scan m s.marked = X ++ [.documentStart, .streamEnd] ∨
      Gained (X ++ [.streamEnd]) (scan m s.marked) := by
  have hblind := blind_closeBlocks (s := s) (some s.cursor.column)
  have hlong : s.marked.closeBlocks (some s.marked.cursor.column) =
      (s.closeBlocks (some s.cursor.column)).marked := hblind.extend _
  have hclosed := htracked.closeBlocks (some s.cursor.column)
  have hclosed' := htracked'.closeBlocks (some s.marked.cursor.column)
  have hcursor : (s.closeBlocks (some s.cursor.column)).cursor = s.cursor := hblind.cursor
  unfold scan at hX ⊢
  dsimp only at hX ⊢
  rw [hlong] at hclosed' ⊢
  generalize s.closeBlocks (some s.cursor.column) = s₁ at hX hclosed hclosed' hcursor
  rw [← hcursor] at hne
  obtain ⟨x, hx⟩ := Option.ne_none_iff_exists'.mp (mt Cursor.rest_eq_nil_iff.mpr hne)
  have hx' : s₁.marked.cursor.peek = some x := Cursor.peek_marked_of_some hx
  rw [hx] at hX
  rw [hx']
  dsimp only at hX ⊢
  cases hstep : s₁.next? x with
  | none =>
      rw [hstep] at hX
      exact absurd hX fault_ne_end
  | some s₂ =>
      obtain ⟨s₂', hstep', hgoes⟩ := next?_marked hx s₂ hstep
      rw [hstep] at hX
      rw [hstep']
      exact hrun s₂ s₂' (hclosed.next? hstep) (hclosed'.next? hstep') hgoes hX

/-- The end of the text, and the marker in its place: one more document begins there. -/
theorem scan_of_ends {s₁ : LexerState} (hends : Ends s s') (htracked : Tracked [] s)
    (htracked' : Tracked [] s') (hstale : s.dropStale? = some s₁)
    (hX : scan n s₁ = X ++ [.streamEnd]) (hdepth : depthAfter 0 X = 0) (hm : 0 < m) :
    ∃ s₁', s'.dropStale? = some s₁' ∧
      (scan m s₁' = X ++ [.documentStart, .streamEnd] ∨
        Gained (X ++ [.streamEnd]) (scan m s₁')) := by
  obtain ⟨hawaits, hclosed, hcursor, hlength⟩ := dropStale?_keeps hstale
  obtain ⟨hawaits₁, hflow₁, hX₁⟩ := scan_of_end (by rw [hcursor]; exact hends.rest)
    (htracked.dropStale? hstale) hX hdepth
  have hflow : s'.outerCandidates = [] := by
    rw [hends.outerCandidates]
    rw [hflow₁] at hlength
    exact List.eq_nil_of_length_eq_zero hlength.symm
  have hawaits' : s'.awaitsColon = false := by
    rw [awaitsColon, hends.candidate]
    exact hawaits.symm.trans hawaits₁
  obtain ⟨s₁', hstale'⟩ := dropStale?_isSome hawaits' hflow
  obtain ⟨hawaits₁', hclosed', hcursor', hlength'⟩ := dropStale?_keeps hstale'
  rw [hflow] at hlength'
  refine ⟨s₁', hstale', ?_⟩
  rw [scan_of_marker (by rw [hcursor']; exact hends.marker) (htracked'.dropStale? hstale')
    (hawaits₁'.trans hawaits') (List.eq_nil_of_length_eq_zero hlength') hm, hclosed', hX₁, hclosed]
  exact hends.closedTokens

/-- What a run makes of the text and of the text with the line of a marker behind. -/
theorem run_marked (htracked : Tracked [] s) (htracked' : Tracked [] s') (hgoes : Goes s s')
    (hnm : n < m) (hX : run n s = X ++ [.streamEnd]) (hdepth : depthAfter 0 X = 0) :
    run m s' = X ++ [.documentStart, .streamEnd] ∨ Gained (X ++ [.streamEnd]) (run m s') := by
  induction n generalizing s s' m with
  | zero => exact absurd hX fault_ne_end
  | succ n ih =>
      obtain ⟨m, rfl⟩ : ∃ k, m = k + 1 := ⟨m - 1, by omega⟩
      have hgap := skipGap_of_goes hgoes
      rw [run_succ] at hX
      rw [run_succ]
      have htracked₁ := htracked.skipGap (s.cursor.rest.length + 1)
      have htracked₁' := htracked'.skipGap (s'.cursor.rest.length + 1)
      generalize skipGap (s.cursor.rest.length + 1) s = s₁ at hgap hX htracked₁
      generalize skipGap (s'.cursor.rest.length + 1) s' = s₁' at hgap htracked₁'
      cases hstale : s₁.dropStale? with
      | none =>
          rw [hstale] at hX
          exact absurd hX fault_ne_end
      | some s₂ =>
          rw [hstale] at hX
          dsimp only at hX
          rcases hgap with ⟨hne, rfl⟩ | hends
          · -- the text goes on, and the next step is the same
            obtain ⟨s₂', hstale', rfl, hcursor⟩ := dropStale?_marked s₁ s₂ hstale
            rw [hstale']
            rw [← hcursor] at hne
            exact scan_marked (htracked₁.dropStale? hstale) (htracked₁'.dropStale? hstale') hne hX
              fun s₃ s₃' htracked₃ htracked₃' hgoes₃ hX₃ =>
                ih htracked₃ htracked₃' hgoes₃ (by omega) hX₃
          · -- the text ends, and the marker stands there
            obtain ⟨s₂', hstale', hscan⟩ :=
              scan_of_ends (m := m) hends htracked₁ htracked₁' hstale hX hdepth (by omega)
            rw [hstale']
            exact hscan

/-- The end of the stream is the last token, if it comes at all. -/
theorem run_streamEnd (htracked : Tracked [] s) (n : Nat) :
    .streamEnd ∉ run n s ∨ ∃ X, run n s = X ++ [.streamEnd] ∧ .streamEnd ∉ X := by
  induction n generalizing s with
  | zero => exact Or.inl htracked.unended_fault
  | succ n ih =>
      have hgap := htracked.skipGap (s.cursor.rest.length + 1)
      rw [run_succ]
      split
      · exact Or.inl hgap.unended_fault
      · next s₁ hstale =>
        have hclosed := (hgap.dropStale? hstale).closeBlocks (some s₁.cursor.column)
        unfold scan
        dsimp only
        generalize s₁.closeBlocks (some s₁.cursor.column) = s₂ at hclosed
        split
        · cases hfinish : s₂.finish? with
          | none => exact Or.inl hclosed.unended_fault
          | some s₃ =>
              obtain ⟨s₄, hdrop, heq⟩ := Option.bind_eq_some_iff.mp hfinish
              obtain rfl := Option.some.inj heq
              refine Or.inr ⟨s₄.tokens.reverse, List.reverse_cons, ?_⟩
              rw [List.mem_reverse]
              exact ((hclosed.closeBlocks none).dropCandidate? hdrop).unended
        · split
          · next s₃ hnext => exact ih (hclosed.next? hnext)
          · exact Or.inl hclosed.unended_fault

end LexerState

open LexerState (Gained)

/-- A text at whose end a block scalar is open that gets a line feed more when the line of a marker
is put behind the text. -/
def GainsLineEnd (text : List Char) : Prop := Gained (tokens text) (tokens (marked text))

variable {text : List Char} {X : List Token}

theorem tokens_streamEnd (text : List Char) :
    .streamEnd ∉ tokens text ∨ ∃ X, tokens text = X ++ [.streamEnd] ∧ .streamEnd ∉ X := by
  rw [tokens_eq]
  split
  · exact LexerState.run_streamEnd (LexerState.Tracked.start _) _
  · exact Or.inl (by decide)

/-- **The tokens with a marker behind**: a document begins at the end, and nothing else changes
unless the text gains a line end. -/
theorem tokens_marked_of_end (hX : tokens text = X ++ [.streamEnd]) (hdepth : depthAfter 0 X = 0) :
    tokens (marked text) = X ++ [.documentStart, .streamEnd] ∨ GainsLineEnd text := by
  have hbody := unmarkedText_marked text []
  rw [List.append_nil, List.append_nil] at hbody
  unfold GainsLineEnd
  rw [hX]
  rw [tokens_eq] at hX
  rw [tokens_eq, hbody]
  generalize unmarkedText text = body at hX
  by_cases hallowed : body.all isAllowed = true
  · have hallowed' : (marked body).all isAllowed = true := by
      rw [marked, List.all_append, hallowed]
      decide
    rw [if_pos hallowed] at hX
    rw [if_pos hallowed']
    refine LexerState.run_marked (LexerState.Tracked.start body)
      (LexerState.Tracked.start (marked body)) (Or.inl rfl) ?_ hX hdepth
    rw [marked, List.length_append]
    simp
  · rw [if_neg hallowed] at hX
    have hlast : ([] : List Token) ++ [.unreadable] = X ++ [.streamEnd] := hX
    exact absurd (List.append_inj_right' hlast rfl) (by decide)

/-- A text gains a line end exactly if more than the document at its end is new. -/
theorem gainsLineEnd_iff (hX : tokens text = X ++ [.streamEnd]) (hdepth : depthAfter 0 X = 0) :
    GainsLineEnd text ↔ tokens (marked text) ≠ X ++ [.documentStart, .streamEnd] :=
  ⟨fun h => h.ne hX, (tokens_marked_of_end hX hdepth).resolve_left⟩

/-- A block that keeps no line end at all gains none. -/
example : ¬ GainsLineEnd "a: |-\n  b".toList := by
  rw [gainsLineEnd_iff (X := [.blockMappingStart, .key, .scalar .plain "a", .value,
    .scalar .literal "b", .blockEnd]) (by decide +kernel) (by decide +kernel)]
  decide +kernel

end SourceEdit.Yaml
