import SourceEdit.Proofs.Yaml.Marker.Properties
import SourceEdit.Proofs.Yaml.Node.Locality

/-!
# What the lexer keeps

Every step of the lexer keeps its books straight: the tokens read before a given place stay as they
are, the number of brackets open is the number of levels of candidates, the blocks that are open are
nested in one that is not, and the end of the stream is not among the tokens. The invariant
`Tracked` says so; each operation of the lexer preserves it, hence each step does.
-/

namespace SourceEdit.Yaml

/-- Whether indentations are nested: only the outermost is that of no block. -/
def Nested : Option Nat → List (Option Nat) → Prop
  | none, [] => True
  | some _, outer :: rest => Nested outer rest
  | _, _ => False

/-- Tokens that neither open nor close a bracket, nor end the stream. -/
def Neutral (t : Token) : Prop := (∀ n, depthStep n t = n) ∧ t ≠ .streamEnd

namespace LexerState

/-- The cursor behind a mark of the byte order, if there is one. -/
def gapStart (s : LexerState) : Cursor :=
  if s.cursor.index == 0 && s.cursor.peek == some '\ufeff' then s.cursor.skip else s.cursor

def isGapBlank (s : LexerState) (x : Char) : Bool :=
  x == ' ' || (x == '\t' && (s.inFlow || !s.keyAllowed))

/-- The end of the blanks and the comment at the cursor. -/
def gapStop (s : LexerState) : Cursor := (s.gapStart.skipWhile s.isGapBlank).skipComment

theorem skipGap_succ (fuel : Nat) (s : LexerState) : skipGap (fuel + 1) s =
    if s.gapStop.peek.any isBreak then
      skipGap fuel
        { s with cursor := s.gapStop.skipBreak, keyAllowed := s.keyAllowed || !s.inFlow }
    else { s with cursor := s.gapStop } := rfl

variable {base : List Token} {s s' : LexerState} {t : Token} {x : Char}

/-- At a character that is neither blank nor starts a comment there is no gap. -/
theorem gapStop_of_peek (hx : s.cursor.peek = some x) (hmark : x ≠ '\ufeff')
    (hblank : s.isGapBlank x = false) (hcomment : x ≠ '#') : s.gapStop = s.cursor := by
  have hstart : s.gapStart = s.cursor := by
    refine if_neg ?_
    rw [hx, Bool.and_eq_true, beq_iff_eq (b := some '\ufeff'), Option.some.injEq]
    exact fun h => hmark h.2
  rw [gapStop, hstart, Cursor.skipWhile_of_peek hx hblank, Cursor.skipComment_of_peek hx hcomment]

theorem gapStop_of_end (hrest : s.cursor.rest = []) : s.gapStop = s.cursor := by
  obtain ⟨⟨rest, index, line, column⟩, tokens, count, indent, outerIndents, keyAllowed, candidate,
    outer⟩ := s
  obtain rfl : rest = [] := hrest
  cases index <;> rfl

/-- A gap ends at a character that is not part of it. -/
theorem skipGap_of_peek (fuel : Nat) (hx : s.cursor.peek = some x) (hmark : x ≠ '\ufeff')
    (hblank : s.isGapBlank x = false) (hcomment : x ≠ '#') (hbreak : isBreak x = false) :
    skipGap (fuel + 1) s = s := by
  rw [skipGap_succ, gapStop_of_peek hx hmark hblank hcomment, hx, Option.any_some, hbreak]
  rfl

theorem skipGap_of_end (fuel : Nat) (hrest : s.cursor.rest = []) : skipGap (fuel + 1) s = s := by
  rw [skipGap_succ, gapStop_of_end hrest, Cursor.peek, hrest]
  rfl

/-- A gap goes on behind a line end. -/
theorem skipGap_of_lineEnd (fuel : Nat) {r : List Char} (hrest : s.cursor.rest = '\n' :: r) :
    skipGap (fuel + 1) s = skipGap fuel
      { s with cursor := ⟨r, s.cursor.index + 1, s.cursor.line + 1, 0⟩
               keyAllowed := s.keyAllowed || !s.inFlow } := by
  have hpeek : s.cursor.peek = some '\n' := by
    rw [Cursor.peek, hrest]
    rfl
  have hskip : s.cursor.skipBreak = ⟨r, s.cursor.index + 1, s.cursor.line + 1, 0⟩ := by
    rw [Cursor.skipBreak, hrest]
    rfl
  rw [skipGap_succ, gapStop_of_peek hpeek (by decide) rfl (by decide), hpeek, if_pos (by decide),
    hskip]

/-- The books of the lexer, with `base` the tokens that no step changes any more. -/
structure Tracked (base : List Token) (s : LexerState) : Prop where
  grown : ∃ new, s.tokens = new ++ base
  count : s.count = s.tokens.length
  candidate : ∀ k, s.candidate = some k → base.length ≤ k.position
  outer : ∀ k, some k ∈ s.outerCandidates → base.length ≤ k.position
  nested : Nested s.indent s.outerIndents
  depth : s.outerCandidates.length = depthAfter 0 s.tokens.reverse
  unended : Token.streamEnd ∉ s.tokens

namespace Tracked

/-- The books before the first character. -/
theorem start (text : List Char) : Tracked [] { cursor := { rest := text } } where
  grown := ⟨[], rfl⟩
  count := rfl
  candidate := fun _ _ => Nat.zero_le _
  outer := fun _ _ => Nat.zero_le _
  nested := trivial
  depth := rfl
  unended := List.not_mem_nil

theorem count_le (h : Tracked base s) : base.length ≤ s.count := by
  obtain ⟨new, hnew⟩ := h.grown
  rw [h.count, hnew, List.length_append]
  exact Nat.le_add_left _ _

/-! ## Tokens -/

theorem emit (h : Tracked base s) (ht : Neutral t) : Tracked base (s.emit t) where
  grown := by
    obtain ⟨new, hnew⟩ := h.grown
    exact ⟨t :: new, congrArg (t :: ·) hnew⟩
  count := congrArg (· + 1) h.count
  candidate := h.candidate
  outer := h.outer
  nested := h.nested
  depth := by
    show s.outerCandidates.length = depthAfter 0 (t :: s.tokens).reverse
    rw [List.reverse_cons, depthAfter_append, ← h.depth]
    exact (ht.1 _).symm
  unended := by
    show Token.streamEnd ∉ t :: s.tokens
    rw [List.mem_cons, not_or]
    exact ⟨ht.2.symm, h.unended⟩

theorem insertAt (h : Tracked base s) (ht : Neutral t) {p : Nat} (hp : base.length ≤ p) :
    Tracked base (s.insertAt p t) where
  grown := by
    obtain ⟨new, hnew⟩ := h.grown
    refine ⟨new.take (s.count - p) ++ t :: new.drop (s.count - p), ?_⟩
    have hle : s.count - p ≤ new.length := by
      rw [h.count, hnew, List.length_append]
      omega
    show s.tokens.take (s.count - p) ++ t :: s.tokens.drop (s.count - p) = _
    rw [hnew, List.take_append_of_le_length hle, List.drop_append_of_le_length hle,
      List.append_assoc]
    rfl
  count := by
    show s.count + 1 = (s.tokens.take (s.count - p) ++ t :: s.tokens.drop (s.count - p)).length
    rw [List.length_append, List.length_cons, ← Nat.add_assoc, ← List.length_append,
      List.take_append_drop, h.count]
  candidate := h.candidate
  outer := h.outer
  nested := h.nested
  depth := by
    show s.outerCandidates.length =
      depthAfter 0 (s.tokens.take (s.count - p) ++ t :: s.tokens.drop (s.count - p)).reverse
    rw [List.reverse_append, List.reverse_cons, List.append_assoc, depthAfter_append,
      depthAfter_append, h.depth]
    conv => lhs; rw [← List.take_append_drop (s.count - p) s.tokens]
    rw [List.reverse_append, depthAfter_append]
    exact congrArg (depthAfter · _) (ht.1 _).symm
  unended := by
    show Token.streamEnd ∉ s.tokens.take (s.count - p) ++ t :: s.tokens.drop (s.count - p)
    rw [List.mem_append, List.mem_cons, not_or, not_or]
    exact ⟨fun hmem => h.unended (List.mem_of_mem_take hmem), ht.2.symm,
      fun hmem => h.unended (List.mem_of_mem_drop hmem)⟩

/-! ## Blocks -/

theorem openBlock (h : Tracked base s) (ht : Neutral t) (column : Nat) (position : Option Nat)
    (hp : ∀ p, position = some p → base.length ≤ p) :
    Tracked base (s.openBlock column position t) := by
  unfold LexerState.openBlock
  split
  · exact h
  · have hopened : Tracked base { s with indent := some column
                                         outerIndents := s.indent :: s.outerIndents } :=
      { h with nested := h.nested }
    cases position with
    | none => exact hopened.emit ht
    | some p => exact hopened.insertAt ht (hp p rfl)

theorem closeBlocksLoop (h : Tracked base s) (column : Option Nat) (fuel : Nat) :
    Tracked base (LexerState.closeBlocksLoop column fuel s) := by
  induction fuel generalizing s with
  | zero => exact h
  | succ fuel ih =>
      unfold LexerState.closeBlocksLoop
      split
      · next i outer rest hindent houter =>
        split
        · have hnested := h.nested
          rw [hindent, houter] at hnested
          have hclosed : Tracked base { s with indent := outer, outerIndents := rest } :=
            { h with nested := hnested }
          exact ih (hclosed.emit ⟨fun _ => rfl, by decide⟩)
        · exact h
      · exact h

theorem closeBlocks (h : Tracked base s) (column : Option Nat) :
    Tracked base (s.closeBlocks column) := by
  unfold LexerState.closeBlocks
  split
  · exact h
  · exact h.closeBlocksLoop column _

/-! ## Candidates -/

theorem dropCandidate? (h : Tracked base s) (hs : s.dropCandidate? = some s') :
    Tracked base s' := by
  unfold LexerState.dropCandidate? at hs
  split at hs
  · exact absurd hs (by simp)
  · obtain rfl := Option.some.inj hs
    exact { h with candidate := fun k hk => absurd hk (by simp) }

theorem noteCandidate? (h : Tracked base s) (hs : s.noteCandidate? = some s') :
    Tracked base s' := by
  unfold LexerState.noteCandidate? at hs
  split at hs
  · obtain ⟨s₁, hdrop, hs⟩ := Option.bind_eq_some_iff.mp hs
    have h₁ := h.dropCandidate? hdrop
    obtain rfl := Option.some.inj hs
    refine { h₁ with candidate := fun k hk => ?_ }
    obtain rfl := Option.some.inj hk
    exact h₁.count_le
  · obtain rfl := Option.some.inj hs
    exact h

theorem dropStale? (h : Tracked base s) (hs : s.dropStale? = some s') : Tracked base s' := by
  unfold LexerState.dropStale? at hs
  dsimp only at hs
  split at hs
  · exact absurd hs (by simp)
  · obtain rfl := Option.some.inj hs
    refine { h with candidate := fun k hk => ?_, outer := fun k hk => ?_, depth := ?_ }
    · dsimp only at hk
      split at hk
      · exact absurd hk (by simp)
      · exact h.candidate k hk
    · obtain ⟨k', hk', hkeep⟩ := List.mem_map.mp hk
      split at hkeep
      · exact absurd hkeep (by simp)
      · obtain rfl := hkeep
        exact h.outer k hk'
    · show (s.outerCandidates.map _).length = _
      rw [List.length_map]
      exact h.depth

/-! ## Steps -/

/-- The cursor and the permission of keys are not in the books. -/
theorem move (h : Tracked base s) (c : Cursor) (b : Bool) :
    Tracked base { s with cursor := c, keyAllowed := b } :=
  { h with }

theorem skipGap (h : Tracked base s) (fuel : Nat) : Tracked base (LexerState.skipGap fuel s) := by
  induction fuel generalizing s with
  | zero => exact h
  | succ fuel ih =>
      rw [skipGap_succ]
      split
      · exact ih (h.move _ _)
      · exact h.move _ _

theorem flowStart? (h : Tracked base s) (ht : ∀ n, depthStep n t = n + 1) (hend : t ≠ .streamEnd)
    (hs : s.flowStart? t = some s') : Tracked base s' := by
  obtain ⟨s₁, hnote, hs⟩ := Option.bind_eq_some_iff.mp hs
  have h₁ := h.noteCandidate? hnote
  obtain rfl := Option.some.inj hs
  obtain ⟨new, hnew⟩ := h₁.grown
  exact
    { grown := ⟨t :: new, congrArg (t :: ·) hnew⟩
      count := congrArg (· + 1) h₁.count
      candidate := fun k hk => absurd hk (by simp [indicator, LexerState.emit])
      outer := fun k hk => by
        rcases List.mem_cons.mp hk with hk | hk
        · exact h₁.candidate k hk.symm
        · exact h₁.outer k hk
      nested := h₁.nested
      depth := by
        show s₁.outerCandidates.length + 1 = depthAfter 0 (t :: s₁.tokens).reverse
        rw [List.reverse_cons, depthAfter_append, ← h₁.depth]
        exact (ht _).symm
      unended := by
        show Token.streamEnd ∉ t :: s₁.tokens
        rw [List.mem_cons, not_or]
        exact ⟨hend.symm, h₁.unended⟩ }

theorem flowEnd? (h : Tracked base s) (ht : ∀ n, depthStep n t = n - 1) (hend : t ≠ .streamEnd)
    (hs : s.flowEnd? t = some s') : Tracked base s' := by
  obtain ⟨s₁, hdrop, hs⟩ := Option.bind_eq_some_iff.mp hs
  have h₁ := h.dropCandidate? hdrop
  obtain rfl := Option.some.inj hs
  obtain ⟨new, hnew⟩ := h₁.grown
  have hunended : Token.streamEnd ∉ t :: s₁.tokens := by
    rw [List.mem_cons, not_or]
    exact ⟨hend.symm, h₁.unended⟩
  have hdepth : depthAfter 0 (t :: s₁.tokens).reverse = s₁.outerCandidates.length - 1 := by
    rw [List.reverse_cons, depthAfter_append, ← h₁.depth]
    exact ht _
  cases houter : s₁.outerCandidates with
  | nil =>
      rw [houter] at hdepth
      exact
        { grown := ⟨t :: new, congrArg (t :: ·) hnew⟩
          count := congrArg (· + 1) h₁.count
          candidate := h₁.candidate
          outer := fun k hk => h₁.outer k hk
          nested := h₁.nested
          depth := by
            show s₁.outerCandidates.length = depthAfter 0 (t :: s₁.tokens).reverse
            rw [hdepth, houter]
            rfl
          unended := hunended }
  | cons k outer =>
      rw [houter] at hdepth
      exact
        { grown := ⟨t :: new, congrArg (t :: ·) hnew⟩
          count := congrArg (· + 1) h₁.count
          candidate := fun k' hk' =>
            h₁.outer k' (by rw [houter, ← hk']; exact List.mem_cons_self ..)
          outer := fun k' hk' => h₁.outer k' (by rw [houter]; exact List.mem_cons_of_mem _ hk')
          nested := h₁.nested
          depth := hdepth.symm
          unended := hunended }

theorem indicator (h : Tracked base s) (ht : Neutral t) (width : Nat) (b : Bool) :
    Tracked base ({ s with keyAllowed := b }.indicator width t) :=
  (h.move (s.cursor.skipMany width) b).emit ht

theorem blockEntry? (h : Tracked base s) (hs : s.blockEntry? = some s') : Tracked base s' := by
  unfold LexerState.blockEntry? at hs
  split at hs
  · exact absurd hs (by simp)
  · obtain ⟨s₁, hdrop, hs⟩ := Option.bind_eq_some_iff.mp hs
    have hopened := h.openBlock (t := .blockSequenceStart) ⟨fun _ => rfl, by decide⟩
      s.cursor.column none (by simp)
    obtain rfl := Option.some.inj hs
    exact (hopened.dropCandidate? hdrop).indicator ⟨fun _ => rfl, by decide⟩ 1 true

theorem explicitKey? (h : Tracked base s) (hs : s.explicitKey? = some s') : Tracked base s' := by
  unfold LexerState.explicitKey? at hs
  split at hs
  · exact absurd hs (by simp)
  · obtain ⟨s₁, hdrop, hs⟩ := Option.bind_eq_some_iff.mp hs
    have hopened := h.openBlock (t := .blockMappingStart) ⟨fun _ => rfl, by decide⟩
      s.cursor.column none (by simp)
    obtain rfl := Option.some.inj hs
    exact (hopened.dropCandidate? hdrop).indicator ⟨fun _ => rfl, by decide⟩ 1 _

theorem valueMark? (h : Tracked base s) (hs : s.valueMark? = some s') : Tracked base s' := by
  unfold LexerState.valueMark? at hs
  split at hs
  · next k hk =>
    obtain rfl := Option.some.inj hs
    have hp := h.candidate k hk
    have hkey := h.insertAt (t := .key) ⟨fun _ => rfl, by decide⟩ hp
    have hopened := hkey.openBlock (t := .blockMappingStart) ⟨fun _ => rfl, by decide⟩
      k.column (some k.position) fun p hp' => by
        obtain rfl := Option.some.inj hp'
        exact hp
    have hdropped : Tracked base
        { (s.insertAt k.position .key).openBlock k.column (some k.position) .blockMappingStart with
          candidate := none } := { hopened with candidate := fun k hk => absurd hk (by simp) }
    exact hdropped.indicator ⟨fun _ => rfl, by decide⟩ 1 false
  · split at hs
    · exact absurd hs (by simp)
    · obtain rfl := Option.some.inj hs
      have hopened := h.openBlock (t := .blockMappingStart) ⟨fun _ => rfl, by decide⟩
        s.cursor.column none (by simp)
      exact hopened.indicator ⟨fun _ => rfl, by decide⟩ 1 _

theorem node? (h : Tracked base s) {read : Option (Token × Cursor)}
    (hread : ∀ t c, read = some (t, c) → Neutral t) (hs : s.node? read = some s') :
    Tracked base s' := by
  obtain ⟨s₁, hnote, hs⟩ := Option.bind_eq_some_iff.mp hs
  obtain ⟨⟨t, c⟩, ht, hs⟩ := Option.bind_eq_some_iff.mp hs
  obtain rfl := Option.some.inj hs
  exact ((h.noteCandidate? hnote).move c false).emit (hread t c ht)

theorem atTop? (h : Tracked base s) {read : Option (Token × Cursor)}
    (hread : ∀ t c, read = some (t, c) → Neutral t) (hs : s.atTop? read = some s') :
    Tracked base s' := by
  obtain ⟨s₁, hdrop, hs⟩ := Option.bind_eq_some_iff.mp hs
  obtain ⟨⟨t, c⟩, ht, hs⟩ := Option.bind_eq_some_iff.mp hs
  obtain rfl := Option.some.inj hs
  exact (((h.closeBlocks none).dropCandidate? hdrop).move c false).emit (hread t c ht)

end Tracked

/-! ## The tokens of single readers -/

theorem neutral_of_directive? {c c' : Cursor} (h : directive? c = some (t, c')) : Neutral t := by
  rw [directive?_eq] at h
  split at h
  · exact absurd h (by simp)
  dsimp only at h
  split at h
  · obtain ⟨r, -, h⟩ := Option.bind_eq_some_iff.mp h
    split at h
    · exact absurd h (by simp)
    · obtain ⟨r', -, h⟩ := Option.bind_eq_some_iff.mp h
      obtain ⟨c, -, h⟩ := Option.bind_eq_some_iff.mp h
      obtain ⟨rfl, -⟩ := Prod.mk.inj (Option.some.inj h)
      exact ⟨fun _ => rfl, by simp⟩
  · obtain ⟨r, -, h⟩ := Option.bind_eq_some_iff.mp h
    split at h
    · exact absurd h (by simp)
    split at h
    · exact absurd h (by simp)
    obtain ⟨r', -, h⟩ := Option.bind_eq_some_iff.mp h
    split at h
    · exact absurd h (by simp)
    · obtain ⟨c, -, h⟩ := Option.bind_eq_some_iff.mp h
      obtain ⟨rfl, -⟩ := Prod.mk.inj (Option.some.inj h)
      exact ⟨fun _ => rfl, by simp⟩
  · exact absurd h (by simp)

theorem neutral_of_tag? {flow : Bool} {c c' : Cursor} (h : tag? flow c = some (t, c')) :
    Neutral t := by
  have htag : ∃ handle suffix, t = .tag handle suffix := by
    unfold tag? at h
    split at h
    · obtain ⟨r, -, h⟩ := Option.bind_eq_some_iff.mp h
      dsimp only at h
      split at h
      · exact absurd h (by simp)
      · obtain ⟨rfl, -⟩ := Prod.mk.inj (Option.some.inj h)
        exact ⟨_, _, rfl⟩
    · obtain ⟨r, -, h⟩ := Option.bind_eq_some_iff.mp h
      obtain ⟨r', -, h⟩ := Option.bind_eq_some_iff.mp h
      dsimp only at h
      split at h
      · exact absurd h (by simp)
      split at h
      · split at h
        · exact absurd h (by simp)
        · obtain ⟨rfl, -⟩ := Prod.mk.inj (Option.some.inj h)
          exact ⟨_, _, rfl⟩
      · split at h
        · obtain ⟨rfl, -⟩ := Prod.mk.inj (Option.some.inj h)
          exact ⟨_, _, rfl⟩
        · obtain ⟨rfl, -⟩ := Prod.mk.inj (Option.some.inj h)
          exact ⟨_, _, rfl⟩
  obtain ⟨handle, suffix, rfl⟩ := htag
  exact ⟨fun _ => rfl, by simp⟩

/-- A reading whose value becomes a token. -/
theorem neutral_of_map {α : Type} {read : Option (α × Cursor)} {token : α → Token}
    (htoken : ∀ a, Neutral (token a)) {t : Token} {c : Cursor}
    (h : (read.map fun (a, c) => (token a, c)) = some (t, c)) : Neutral t := by
  obtain ⟨⟨a, c'⟩, -, heq⟩ := Option.map_eq_some_iff.mp h
  obtain ⟨rfl, -⟩ := Prod.mk.inj heq
  exact htoken a

/-- A result of a choice is one of its branches. -/
theorem cases_of_ite {α : Type} {p q : Prop} [Decidable p] {x y z : α}
    (h : (if p then x else y) = z) (hpos : x = z → q) (hneg : y = z → q) : q := by
  split at h
  · exact hpos h
  · exact hneg h

/-- **Each step of the lexer** keeps the books. -/
theorem Tracked.next? {x : Char} (h : Tracked base s) (hs : s.next? x = some s') :
    Tracked base s' := by
  -- one case for each kind of token, in the order in which the lexer looks for them
  refine cases_of_ite hs (fun hs => ?_) fun hs => ?_
  · exact h.atTop? (fun t c => neutral_of_directive?) hs
  refine cases_of_ite hs (fun hs => ?_) fun hs => ?_
  · refine h.atTop? (fun t c heq => ?_) hs
    obtain ⟨rfl, -⟩ := Prod.mk.inj (Option.some.inj heq)
    exact ⟨fun _ => rfl, by decide⟩
  refine cases_of_ite hs (fun hs => ?_) fun hs => ?_
  · refine h.atTop? (fun t c heq => ?_) hs
    obtain ⟨rfl, -⟩ := Prod.mk.inj (Option.some.inj heq)
    exact ⟨fun _ => rfl, by decide⟩
  refine cases_of_ite hs (fun hs => ?_) fun hs => ?_
  · exact h.flowStart? (fun _ => rfl) (by decide) hs
  refine cases_of_ite hs (fun hs => ?_) fun hs => ?_
  · exact h.flowStart? (fun _ => rfl) (by decide) hs
  refine cases_of_ite hs (fun hs => ?_) fun hs => ?_
  · exact h.flowEnd? (fun _ => rfl) (by decide) hs
  refine cases_of_ite hs (fun hs => ?_) fun hs => ?_
  · exact h.flowEnd? (fun _ => rfl) (by decide) hs
  refine cases_of_ite hs (fun hs => ?_) fun hs => ?_
  · obtain ⟨s₁, hdrop, hs⟩ := Option.bind_eq_some_iff.mp hs
    obtain rfl := Option.some.inj hs
    exact (h.dropCandidate? hdrop).indicator ⟨fun _ => rfl, by decide⟩ 1 true
  refine cases_of_ite hs (fun hs => ?_) fun hs => ?_
  · exact h.blockEntry? hs
  refine cases_of_ite hs (fun hs => ?_) fun hs => ?_
  · exact h.explicitKey? hs
  refine cases_of_ite hs (fun hs => ?_) fun hs => ?_
  · exact h.valueMark? hs
  refine cases_of_ite hs (fun hs => ?_) fun hs => ?_
  · exact h.node? (fun t c => neutral_of_map fun _ => ⟨fun _ => rfl, by simp⟩) hs
  refine cases_of_ite hs (fun hs => ?_) fun hs => ?_
  · exact h.node? (fun t c => neutral_of_map fun _ => ⟨fun _ => rfl, by simp⟩) hs
  refine cases_of_ite hs (fun hs => ?_) fun hs => ?_
  · exact h.node? (fun t c => neutral_of_tag?) hs
  refine cases_of_ite hs (fun hs => ?_) fun hs => ?_
  · obtain ⟨s₁, hdrop, hs⟩ := Option.bind_eq_some_iff.mp hs
    obtain ⟨r, -, hs⟩ := Option.bind_eq_some_iff.mp hs
    obtain rfl := Option.some.inj hs
    exact ((h.dropCandidate? hdrop).move r.2 true).emit ⟨fun _ => rfl, by simp⟩
  refine cases_of_ite hs (fun hs => ?_) fun hs => ?_
  · exact h.node? (fun t c => neutral_of_map fun _ => ⟨fun _ => rfl, by simp⟩) hs
  refine cases_of_ite hs (fun hs => ?_) fun hs => ?_
  · exact h.node? (fun t c => neutral_of_map fun _ => ⟨fun _ => rfl, by simp⟩) hs
  refine cases_of_ite hs (fun hs => ?_) fun hs => ?_
  · obtain ⟨s₁, hnote, hs⟩ := Option.bind_eq_some_iff.mp hs
    obtain ⟨r, -, hs⟩ := Option.bind_eq_some_iff.mp hs
    obtain rfl := Option.some.inj hs
    exact ((h.noteCandidate? hnote).move r.2.2 r.2.1).emit ⟨fun _ => rfl, by simp⟩
  · exact absurd hs (by simp)

/-! ## Runs -/

/-- A run from the end of a gap on. -/
def scan (fuel : Nat) (s : LexerState) : List Token :=
  let s := s.closeBlocks (some s.cursor.column)
  match s.cursor.peek with
  | none => ((s.finish?).getD (s.emit .unreadable)).tokens.reverse
  | some x =>
    match s.next? x with
    | some s => run fuel s
    | none => (s.emit .unreadable).tokens.reverse

theorem run_succ (fuel : Nat) (s : LexerState) : run (fuel + 1) s =
    match (skipGap (s.cursor.rest.length + 1) s).dropStale? with
    | none => ((skipGap (s.cursor.rest.length + 1) s).emit .unreadable).tokens.reverse
    | some s => scan fuel s := rfl

theorem run_of_gap {s₁ s₂ : LexerState} (fuel : Nat)
    (hgap : skipGap (s.cursor.rest.length + 1) s = s₁) (hstale : s₁.dropStale? = some s₂) :
    run (fuel + 1) s = scan fuel s₂ := by
  rw [run_succ, hgap, hstale]

/-- A step on a character, after the blocks that end at its column are closed. -/
theorem scan_of_next {s₁ s₂ : LexerState} {x : Char} (fuel : Nat)
    (hclosed : s.closeBlocks (some s.cursor.column) = s₁) (hpeek : s₁.cursor.peek = some x)
    (hnext : s₁.next? x = some s₂) : scan fuel s = run fuel s₂ := by
  unfold scan
  dsimp only
  rw [hclosed, hpeek]
  dsimp only
  rw [hnext]

theorem Tracked.reverse_emit (h : Tracked base s) (t : Token) :
    ∃ more, (s.emit t).tokens.reverse = base.reverse ++ more := by
  obtain ⟨new, hnew⟩ := h.grown
  refine ⟨(t :: new).reverse, ?_⟩
  rw [LexerState.emit, hnew, ← List.cons_append, List.reverse_append]

theorem Tracked.unended_fault (h : Tracked base s) :
    Token.streamEnd ∉ (s.emit .unreadable).tokens.reverse := by
  rw [List.mem_reverse]
  exact List.not_mem_cons_of_ne_of_not_mem (by decide) h.unended

theorem Tracked.scan {fuel : Nat} (h : Tracked base s)
    (hrun : ∀ s, Tracked base s → ∃ more, run fuel s = base.reverse ++ more) :
    ∃ more, scan fuel s = base.reverse ++ more := by
  have hclosed := h.closeBlocks (some s.cursor.column)
  unfold LexerState.scan
  dsimp only
  generalize s.closeBlocks (some s.cursor.column) = s₁ at hclosed
  split
  · cases hfinish : s₁.finish? with
    | none => exact hclosed.reverse_emit .unreadable
    | some s₂ =>
        obtain ⟨s₃, hdrop, heq⟩ := Option.bind_eq_some_iff.mp hfinish
        obtain rfl := Option.some.inj heq
        exact ((hclosed.closeBlocks none).dropCandidate? hdrop).reverse_emit .streamEnd
  · split
    · next s₂ hnext => exact hrun s₂ (hclosed.next? hnext)
    · exact hclosed.reverse_emit .unreadable

/-- **A run** only adds to the tokens that no step changes any more. -/
theorem Tracked.run (h : Tracked base s) (fuel : Nat) :
    ∃ more, run fuel s = base.reverse ++ more := by
  induction fuel generalizing s with
  | zero => exact h.reverse_emit .unreadable
  | succ fuel ih =>
      have hgap := h.skipGap (s.cursor.rest.length + 1)
      rw [run_succ]
      split
      · exact hgap.reverse_emit .unreadable
      · next s₁ hstale => exact (hgap.dropStale? hstale).scan fun s hs => ih hs

end LexerState

end SourceEdit.Yaml
