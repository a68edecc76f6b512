import SourceEdit.Proofs.Yaml.Ending.Block
import SourceEdit.Proofs.Yaml.Ending.Plain
import SourceEdit.Proofs.Yaml.Ending.Properties
import SourceEdit.Proofs.Yaml.Marker.Arrival

/-!
# The lexer at the end of a text

A text ends, or the line of a marker follows it. A step of the lexer that does not come to the end
does the same in both (`marked`). One that does arrives at the end and at the marker with the same
books, except that a block scalar which was open has got a line feed more (`Ends`).
-/

namespace SourceEdit.Yaml

open Cursor (Kept Meets length_marked skip_marked skipMany_marked peek_marked
  peek_marked_of_some peek_marked_beq rest_eq_nil_iff)
open Outcome (Follows Beside)

/-- A block scalar and the same with one more line feed at its end. -/
inductive GainsFeed : Token → Token → Prop where
  | literal (v : String) : GainsFeed (.scalar .literal v) (.scalar .literal (v ++ "\n"))
  | folded (v : String) : GainsFeed (.scalar .folded v) (.scalar .folded (v ++ "\n"))

namespace LexerState

variable {s s' : LexerState} {c c' : Cursor} {t t' : Token} {x : Char} {m n : Nat}

def marked (s : LexerState) : LexerState := s.extend ('\n' :: markerLine)

/-- The tokens so far, the latest first, where the latest may have got a line feed more. -/
inductive MayGain (ts : List Token) : List Token → Prop where
  | same : MayGain ts ts
  | gains {t t' : Token} {before : List Token} (ht : GainsFeed t t') (hts : ts = t :: before) :
      MayGain ts (t' :: before)

/-- The end of the text and the marker, with the same books. -/
structure Ends (s s' : LexerState) : Prop where
  rest : s.cursor.rest = []
  marker : s'.cursor.AtMarker
  tokens : MayGain s.tokens s'.tokens
  indent : s'.indent = s.indent
  outerIndents : s'.outerIndents = s.outerIndents
  candidate : s'.candidate = s.candidate
  outerCandidates : s'.outerCandidates = s.outerCandidates

/-- Where one step leads: to the same place, or to the end of the text and the marker. -/
def Goes (s s' : LexerState) : Prop := s' = s.marked ∨ Ends s s'

def KeptAt (c : Cursor) (s s' : LexerState) : Prop := s' = s.marked ∧ s.cursor = c

/-! ## Candidates -/

theorem dropCandidate?_marked (s : LexerState) :
    Follows (KeptAt s.cursor) s.dropCandidate? s.marked.dropCandidate? :=
  Follows.ite (fun _ => Follows.none) fun _ => Follows.some ⟨rfl, rfl⟩

theorem noteCandidate?_marked (s : LexerState) :
    Follows (KeptAt s.cursor) s.noteCandidate? s.marked.noteCandidate? := by
  refine Follows.ite (fun _ => ?_) fun _ => Follows.some ⟨rfl, rfl⟩
  refine Follows.bind (dropCandidate?_marked s) ?_
  rintro s₁ - ⟨rfl, hcursor⟩
  exact Follows.some ⟨rfl, hcursor⟩

theorem dropStale?_marked (s : LexerState) :
    Follows (KeptAt s.cursor) s.dropStale? s.marked.dropStale? :=
  Follows.ite (fun _ => Follows.none) fun _ => Follows.some ⟨rfl, rfl⟩

/-! ## Emitting -/

/-- A token that was read up to a place. -/
theorem goes_emit {b b' : Bool} (h : (c' = c.marked ∧ b' = b ∧ t' = t) ∨
      (c.rest = [] ∧ c'.AtMarker ∧ (t' = t ∨ GainsFeed t t'))) :
    Goes ({ s with cursor := c, keyAllowed := b }.emit t)
      ({ s.marked with cursor := c', keyAllowed := b' }.emit t') := by
  rcases h with ⟨rfl, rfl, rfl⟩ | ⟨hend, hmarker, ht⟩
  · exact Or.inl rfl
  · refine Or.inr ⟨hend, hmarker, ?_, rfl, rfl, rfl, rfl⟩
    rcases ht with rfl | ht
    · exact MayGain.same
    · exact MayGain.gains ht rfl

theorem goes_indicator (hx : s.cursor.peek = some x) (t : Token) :
    Goes (s.indicator 1 t) (s.marked.indicator 1 t) := by
  refine Or.inl ?_
  show ({ s with cursor := s.cursor.marked.skip }.emit t : LexerState) = _
  rw [skip_marked hx]
  rfl

/-! ## Steps -/

theorem flowStart?_marked (hx : s.cursor.peek = some x) (t : Token) :
    Follows Goes (s.flowStart? t) (s.marked.flowStart? t) := by
  refine Follows.bind (noteCandidate?_marked s) ?_
  rintro s₁ - ⟨rfl, hcursor⟩
  rw [← hcursor] at hx
  exact Follows.some (goes_indicator (s := { s₁ with
    candidate := none, outerCandidates := s₁.candidate :: s₁.outerCandidates,
    keyAllowed := true }) hx t)

theorem flowEnd?_marked (hx : s.cursor.peek = some x) (t : Token) :
    Follows Goes (s.flowEnd? t) (s.marked.flowEnd? t) := by
  refine Follows.bind (dropCandidate?_marked s) ?_
  rintro s₁ - ⟨rfl, hcursor⟩
  rw [← hcursor] at hx
  obtain ⟨cursor, tokens, count, indent, outerIndents, keyAllowed, candidate, outer⟩ := s₁
  cases outer with
  | nil =>
      exact Follows.some (goes_indicator
        (s := ⟨cursor, tokens, count, indent, outerIndents, false, candidate, []⟩) hx t)
  | cons k outer =>
      exact Follows.some (goes_indicator
        (s := ⟨cursor, tokens, count, indent, outerIndents, false, k, outer⟩) hx t)

/-- The entry of a block or an explicit key. -/
theorem blockMark_marked (hx : s.cursor.peek = some x) (start t : Token)
    (allow : LexerState → Bool) (hallow : ∀ s : LexerState, allow s.marked = allow s) :
    Follows Goes
      ((s.openBlock s.cursor.column none start).dropCandidate?.bind fun s₁ =>
        some ({ s₁ with keyAllowed := allow s₁ }.indicator 1 t))
      ((s.marked.openBlock s.cursor.column none start).dropCandidate?.bind fun s₁ =>
        some ({ s₁ with keyAllowed := allow s₁ }.indicator 1 t)) := by
  have hblind := blind_openBlock (s := s) s.cursor.column none start
  rw [marked, hblind.extend]
  refine Follows.bind (dropCandidate?_marked _) ?_
  rintro s₁ - ⟨rfl, hcursor⟩
  rw [← hblind.cursor, ← hcursor] at hx
  rw [hallow]
  exact Follows.some (goes_indicator (s := { s₁ with keyAllowed := allow s₁ }) hx t)

theorem valueMark?_marked (hx : s.cursor.peek = some x) :
    Follows Goes s.valueMark? s.marked.valueMark? := by
  unfold valueMark?
  have hcandidate : s.marked.candidate = s.candidate := rfl
  rw [hcandidate]
  cases s.candidate with
  | some k =>
      have hblind := blind_openBlock (s := s.insertAt k.position .key) k.column (some k.position)
        .blockMappingStart
      have hlong : (s.marked.insertAt k.position .key).openBlock k.column (some k.position)
          .blockMappingStart = ((s.insertAt k.position .key).openBlock k.column (some k.position)
            .blockMappingStart).marked := hblind.extend _
      have hcursor : ((s.insertAt k.position .key).openBlock k.column (some k.position)
          .blockMappingStart).cursor = s.cursor := hblind.cursor
      dsimp only
      rw [hlong]
      rw [← hcursor] at hx
      generalize (s.insertAt k.position .key).openBlock k.column (some k.position)
        .blockMappingStart = s₁ at hx
      exact Follows.some (goes_indicator
        (s := { s₁ with candidate := none, keyAllowed := false }) hx .value)
  | none =>
      have hblind := blind_openBlock (s := s) s.cursor.column none .blockMappingStart
      have hlong : s.marked.openBlock s.marked.cursor.column none .blockMappingStart =
          (s.openBlock s.cursor.column none .blockMappingStart).marked := hblind.extend _
      refine Follows.ite (fun _ => Follows.none) fun _ => ?_
      rw [hlong]
      rw [← hblind.cursor] at hx
      generalize s.openBlock s.cursor.column none .blockMappingStart = s₁ at hx
      exact Follows.some (goes_indicator (s := { s₁ with keyAllowed := !s₁.inFlow }) hx .value)

theorem node?_marked {short long : Option (Token × Cursor)}
    (hread : Follows (Beside Kept) short long) :
    Follows Goes (s.node? short) (s.marked.node? long) := by
  refine Follows.bind (noteCandidate?_marked s) ?_
  rintro s₁ - ⟨rfl, -⟩
  refine Follows.bind hread ?_
  rintro ⟨t, c⟩ ⟨t', c'⟩ ⟨ht, hkept⟩
  exact Follows.some (goes_emit (Or.inl ⟨hkept, rfl, ht.symm⟩))

theorem atTop?_marked {short long : Option (Token × Cursor)}
    (hread : Follows (Beside Meets) short long) :
    Follows Goes (s.atTop? short) (s.marked.atTop? long) := by
  have hblind := blind_closeBlocks (s := s) none
  unfold atTop?
  rw [marked, hblind.extend]
  refine Follows.bind (dropCandidate?_marked _) ?_
  rintro s₁ - ⟨rfl, -⟩
  refine Follows.bind hread ?_
  rintro ⟨t, c⟩ ⟨t', c'⟩ ⟨ht, hmeets⟩
  refine Follows.some (goes_emit ?_)
  rcases hmeets with hkept | ⟨hend, hmarker⟩
  · exact Or.inl ⟨hkept, rfl, ht.symm⟩
  · exact Or.inr ⟨hend, hmarker, Or.inl ht.symm⟩

/-- The marker of a document takes three characters. -/
theorem marker_marked {mark : Char} (hmark : c.atMarker mark = true) (t : Token) :
    Follows (Beside Meets) (some (t, c.skipMany 3)) (some (t, c.marked.skipMany 3)) := by
  simp only [Cursor.atMarker, Bool.and_eq_true, beq_iff_eq] at hmark
  have hlength : 3 ≤ c.rest.length := (List.getElem?_eq_some_iff.mp hmark.1.2).1
  exact Follows.some ⟨rfl, Or.inl (skipMany_marked hlength)⟩

/-- A reading whose value becomes a token. -/
theorem map_marked {α : Type} {short long : Option (α × Cursor)}
    (h : Follows (Beside Kept) short long) (token : α → Token) :
    Follows (Beside Kept) (short.map fun (a, c) => (token a, c))
      (long.map fun (a, c) => (token a, c)) :=
  Follows.map h fun _ _ hab => ⟨congrArg token hab.1, hab.2⟩

theorem startsPlain_marked (flow : Bool) (hx : c.peek = some x) (y : Char) :
    startsPlain flow y (c.marked.peekAt 1) = startsPlain flow y (c.peekAt 1) := by
  unfold startsPlain
  rw [Cursor.peekAt_one_marked hx, ← Cursor.peek_skip hx, Cursor.isBlankOrEnd_peek_marked,
    Cursor.any_peek_marked c.skip (by decide)]

/-- A block scalar may take up the line feed in front of the marker. -/
theorem blockScalar_marked (hx : c.peek = some x) (s : LexerState) (folded : Bool)
    (indent : Option Nat) :
    Follows Goes
      ((block? folded indent c).bind fun (v, c) =>
        some ({ s with cursor := c, keyAllowed := true }.emit
          (.scalar (if folded then .folded else .literal) v)))
      ((block? folded indent c.marked).bind fun (v, c) =>
        some ({ s.marked with cursor := c, keyAllowed := true }.emit
          (.scalar (if folded then .folded else .literal) v))) := by
  refine Follows.bind (block?_marked hx) ?_
  rintro ⟨v, c⟩ ⟨v', c'⟩ hmeets
  refine Follows.some (goes_emit ?_)
  rcases hmeets with hkept | ⟨hend, hmarker, hv⟩
  · obtain ⟨rfl, rfl⟩ := Prod.mk.inj hkept
    exact Or.inl ⟨rfl, rfl, rfl⟩
  · refine Or.inr ⟨hend, hmarker, ?_⟩
    rcases hv with hv | hv
    · exact Or.inl (congrArg _ hv)
    · refine Or.inr ?_
      obtain rfl : v' = v ++ "\n" := hv
      cases folded with
      | true => exact GainsFeed.folded v
      | false => exact GainsFeed.literal v

/-- A plain scalar may run to the end of the text. -/
theorem plainScalar_marked (s : LexerState) (flow : Bool) (indent : Nat) (c : Cursor) :
    Follows Goes
      ((plain? flow indent c).bind fun (v, broken, c) =>
        some ({ s with cursor := c, keyAllowed := broken }.emit (.scalar .plain v)))
      ((plain? flow indent c.marked).bind fun (v, broken, c) =>
        some ({ s.marked with cursor := c, keyAllowed := broken }.emit (.scalar .plain v))) := by
  refine Follows.bind (plain?_marked c) ?_
  rintro ⟨v, broken, c⟩ ⟨v', broken', c'⟩ ⟨hv, hmeets⟩
  obtain rfl : v' = v := hv
  refine Follows.some (goes_emit ?_)
  rcases hmeets with hkept | ⟨hend, hmarker⟩
  · obtain ⟨rfl, rfl⟩ := Prod.mk.inj hkept
    exact Or.inl ⟨rfl, rfl, rfl⟩
  · exact Or.inr ⟨hend, hmarker, Or.inl rfl⟩

/-- **Each step of the lexer** leads to the same place, or to the end of the text and the
marker. -/
theorem next?_marked (hx : s.cursor.peek = some x) :
    Follows Goes (s.next? x) (s.marked.next? x) := by
  have hmark : ∀ mark : Char, mark ≠ '\n' →
      s.marked.cursor.atMarker mark = s.cursor.atMarker mark :=
    fun _ hne => Cursor.atMarker_marked s.cursor hne
  have hnext : isBlankOrEnd (s.marked.cursor.peekAt 1) = isBlankOrEnd (s.cursor.peekAt 1) := by
    show isBlankOrEnd (s.cursor.marked.peekAt 1) = _
    rw [Cursor.peekAt_one_marked hx, Cursor.isBlankOrEnd_peek_marked, Cursor.peek_skip hx]
  have hplain : ∀ flow, startsPlain flow x (s.marked.cursor.peekAt 1) =
      startsPlain flow x (s.cursor.peekAt 1) := fun flow => startsPlain_marked flow hx x
  unfold next?
  dsimp only
  rw [hmark '-' (by decide), hmark '.' (by decide), hnext, hplain]
  -- the characters in the order of the lexer: what stands at the top first, scalars last
  refine Follows.ite (fun _ => atTop?_marked (directive?_marked hx)) fun _ => ?_
  refine Follows.ite (fun hcase => atTop?_marked (marker_marked hcase _)) fun _ => ?_
  refine Follows.ite (fun hcase => atTop?_marked (marker_marked hcase _)) fun _ => ?_
  refine Follows.ite (fun _ => flowStart?_marked hx _) fun _ => ?_
  refine Follows.ite (fun _ => flowStart?_marked hx _) fun _ => ?_
  refine Follows.ite (fun _ => flowEnd?_marked hx _) fun _ => ?_
  refine Follows.ite (fun _ => flowEnd?_marked hx _) fun _ => ?_
  refine Follows.ite (fun _ => ?_) fun _ => ?_
  · refine Follows.bind (dropCandidate?_marked s) ?_
    rintro s₁ - ⟨rfl, hcursor⟩
    rw [← hcursor] at hx
    exact Follows.some (goes_indicator (s := { s₁ with keyAllowed := true }) hx _)
  refine Follows.ite (fun _ => ?_) fun _ => ?_
  · refine Follows.ite (fun _ => Follows.none) fun _ => ?_
    exact blockMark_marked hx .blockSequenceStart .blockEntry (fun _ => true) fun _ => rfl
  refine Follows.ite (fun _ => ?_) fun _ => ?_
  · refine Follows.ite (fun _ => Follows.none) fun _ => ?_
    exact blockMark_marked hx .blockMappingStart .key (fun s => !s.inFlow) fun _ => rfl
  refine Follows.ite (fun _ => valueMark?_marked hx) fun _ => ?_
  refine Follows.ite (fun _ => node?_marked (map_marked (anchorName?_marked hx) _)) fun _ => ?_
  refine Follows.ite (fun _ => node?_marked (map_marked (anchorName?_marked hx) _)) fun _ => ?_
  refine Follows.ite (fun _ => node?_marked (tag?_marked hx)) fun _ => ?_
  refine Follows.ite (fun _ => ?_) fun _ => ?_
  · refine Follows.bind (dropCandidate?_marked s) ?_
    rintro s₁ - ⟨rfl, -⟩
    exact blockScalar_marked hx s₁ _ _
  refine Follows.ite (fun _ => node?_marked (map_marked (quoted?_marked hx) _)) fun _ => ?_
  refine Follows.ite (fun _ => node?_marked (map_marked (quoted?_marked hx) _)) fun _ => ?_
  refine Follows.ite (fun _ => ?_) fun _ => Follows.none
  refine Follows.bind (noteCandidate?_marked s) ?_
  rintro s₁ - ⟨rfl, -⟩
  exact plainScalar_marked s₁ _ _ s.cursor

/-! ## Gaps -/

theorem gapStop_marked (s : LexerState) : s.marked.gapStop = s.gapStop.marked := by
  have hstart : s.marked.gapStart = s.gapStart.marked := by
    unfold gapStart
    have hpeek : (s.marked.cursor.peek == some '\ufeff') = (s.cursor.peek == some '\ufeff') :=
      peek_marked_beq s.cursor (by decide)
    rw [hpeek]
    by_cases hmark : (s.cursor.index == 0 && s.cursor.peek == some '\ufeff') = true
    · have hmark' : (s.marked.cursor.index == 0 && s.cursor.peek == some '\ufeff') = true := hmark
      rw [if_pos hmark, if_pos hmark']
      rw [Bool.and_eq_true, beq_iff_eq (b := some '\ufeff')] at hmark
      exact skip_marked hmark.2
    · have hmark' : ¬ (s.marked.cursor.index == 0 && s.cursor.peek == some '\ufeff') = true := hmark
      rw [if_neg hmark, if_neg hmark']
      rfl
  have hblank : s.marked.isGapBlank = s.isGapBlank := rfl
  unfold gapStop
  rw [hstart, hblank, Cursor.skipWhile_marked _ rfl, Cursor.skipComment_marked]

theorem length_gapStop_le (s : LexerState) :
    s.gapStop.rest.length ≤ s.cursor.rest.length := by
  have hstart : s.gapStart.rest.length ≤ s.cursor.rest.length := by
    unfold gapStart
    split
    · next hmark =>
      rw [Bool.and_eq_true, beq_iff_eq (b := some '\ufeff')] at hmark
      exact Nat.le_of_lt (Cursor.length_skip_lt hmark.2)
    · exact Nat.le_refl _
  have hblank := (Cursor.ahead_skipWhile (c := s.gapStart) (p := s.isGapBlank)).length
  unfold gapStop Cursor.skipComment
  split
  · have hcomment := (Cursor.ahead_skipWhile (c := s.gapStart.skipWhile s.isGapBlank)
      (p := fun x => !isBreak x)).length
    omega
  · omega

theorem skipGap_of_ends (h : Ends s s') (n m : Nat) :
    skipGap (n + 1) s = s ∧ skipGap (m + 1) s' = s' :=
  ⟨skipGap_of_end n h.rest,
    skipGap_of_peek m h.marker.peek_eq (by decide) rfl (by decide) (by decide)⟩

/-- A gap ends at the same character, or at the end of the text and the marker. -/
theorem skipGap_marked (hn : s.cursor.rest.length < n) (hm : s.cursor.rest.length + 1 < m) :
    ((skipGap n s).cursor.rest ≠ [] ∧ skipGap m s.marked = (skipGap n s).marked) ∨
      Ends (skipGap n s) (skipGap m s.marked) := by
  induction n generalizing s m with
  | zero => exact absurd hn (Nat.not_lt_zero _)
  | succ n ih =>
      obtain ⟨m, rfl⟩ : ∃ k, m = k + 1 := ⟨m - 1, by omega⟩
      have hlength := length_gapStop_le s
      rw [skipGap_succ, skipGap_succ, gapStop_marked]
      by_cases hend : s.gapStop.rest = []
      · -- the line feed belongs to the gap, and the marker ends it
        obtain ⟨m, rfl⟩ : ∃ k, m = k + 1 := ⟨m - 1, by omega⟩
        have hbreak : (some '\n').any isBreak = true := by decide
        have hends : Ends { s with cursor := s.gapStop }
            { s.marked with
              cursor := s.gapStop.marked.skipBreak
              keyAllowed := s.marked.keyAllowed || !s.marked.inFlow } :=
          ⟨hend, Cursor.atMarker_of_end hend, MayGain.same, rfl, rfl, rfl, rfl⟩
        rw [rest_eq_nil_iff.mp hend, Cursor.peek_marked_of_end hend, if_pos hbreak,
          (skipGap_of_ends hends 0 m).2]
        exact Or.inr hends
      · obtain ⟨x, hx⟩ := Option.ne_none_iff_exists'.mp (mt rest_eq_nil_iff.mpr hend)
        rw [peek_marked_of_some hx, hx, Option.any_some]
        by_cases hbreak : isBreak x = true
        · rw [if_pos hbreak, if_pos hbreak]
          have hless := Cursor.length_skipBreak_lt hx hbreak
          rcases Cursor.skipBreak_meets s.gapStop with hkept | ⟨hend', hmarker⟩
          · rw [hkept]
            exact ih (s := { s with cursor := s.gapStop.skipBreak
                                    keyAllowed := s.keyAllowed || !s.inFlow })
              (by dsimp only; omega) (by dsimp only; omega)
          · have hends : Ends
                { s with
                  cursor := s.gapStop.skipBreak
                  keyAllowed := s.keyAllowed || !s.inFlow }
                { s.marked with
                  cursor := s.gapStop.marked.skipBreak
                  keyAllowed := s.marked.keyAllowed || !s.marked.inFlow } :=
              ⟨hend', hmarker, MayGain.same, rfl, rfl, rfl, rfl⟩
            obtain ⟨n, rfl⟩ : ∃ k, n = k + 1 := ⟨n - 1, by omega⟩
            obtain ⟨m, rfl⟩ : ∃ k, m = k + 1 := ⟨m - 1, by omega⟩
            rw [(skipGap_of_ends hends n m).1, (skipGap_of_ends hends n m).2]
            exact Or.inr hends
        · rw [if_neg hbreak, if_neg hbreak]
          exact Or.inl ⟨hend, rfl⟩

/-- The gap behind a step ends at the same character, or at the end of the text and the marker. -/
theorem skipGap_of_goes (h : Goes s s') :
    ((skipGap (s.cursor.rest.length + 1) s).cursor.rest ≠ [] ∧
        skipGap (s'.cursor.rest.length + 1) s' = (skipGap (s.cursor.rest.length + 1) s).marked) ∨
      Ends (skipGap (s.cursor.rest.length + 1) s) (skipGap (s'.cursor.rest.length + 1) s') := by
  rcases h with rfl | hends
  · refine skipGap_marked (Nat.lt_add_one _) ?_
    have hlength : s.marked.cursor.rest.length = s.cursor.rest.length + 5 :=
      Cursor.length_marked s.cursor
    omega
  · obtain ⟨hshort, hlong⟩ :=
      skipGap_of_ends hends s.cursor.rest.length s'.cursor.rest.length
    rw [hshort, hlong]
    exact Or.inr hends

end LexerState

end SourceEdit.Yaml
