import SourceEdit.Proofs.Yaml.Written.DoubleQuoted
import SourceEdit.Proofs.Yaml.Written.Literal
import SourceEdit.Proofs.Yaml.Written.SingleQuoted
import SourceEdit.Yaml.Token.Lexer

/-!
# A value of a record read back

Whatever the text, the style in which it is written is one that can hold it, and the lexer, at the
value of an entry, reads one scalar of that style with just this text.
-/

namespace SourceEdit.Yaml

variable {ts : List Token} {c : Cursor} {t w : List Char} {value : String} {x : Char}
  {inside allowed : Bool} {i l k n : Nat}

/-! ## The style of a text -/

/-- What a style asks of the texts that are written in it. -/
inductive Suits (value : String) : Style → Prop where
  | plain : readsAsText value = true → value.toList ≠ [] → Avoids unplain none value.toList →
      Suits value .plain
  | singleQuoted : '\n' ∉ value.toList → Avoids unquotable none value.toList →
      Suits value .singleQuoted
  | doubleQuoted : Suits value .doubleQuoted
  | literal : value.toList ≠ [] → Avoids unblockable none value.toList → Suits value .literal

theorem ne_nil_of_readsAsText (h : readsAsText value = true) : value.toList ≠ [] := by
  intro hempty
  obtain rfl : value = "" := String.toList_inj.mp hempty
  exact absurd h (by decide +kernel)

/-- **The style of a text** suits it. -/
theorem suits_styleFor (value : String) : Suits value (styleFor value) := by
  have hquoted : '\n' ∉ value.toList → Suits value (if (traits value.toList).allowsSingleQuotes then
      .singleQuoted else .doubleQuoted) := by
    intro hfeed
    split
    · next hallows => exact .singleQuoted hfeed (avoids_of_allowsSingleQuotes hallows)
    · exact .doubleQuoted
  unfold styleFor
  dsimp only
  by_cases hfeed : value.toList.contains '\n' = true
  · rw [if_pos hfeed]
    dsimp only
    split
    · next hallows =>
      refine .literal ?_ (avoids_of_allowsBlock hallows)
      intro hempty
      rw [hempty] at hfeed
      exact absurd hfeed (by decide)
    · exact .doubleQuoted
  · rw [if_neg hfeed]
    have hmem : '\n' ∉ value.toList := by
      rwa [← List.contains_iff_mem]
    by_cases htext : readsAsText value = true
    · rw [if_pos htext]
      dsimp only
      split
      · next hallows =>
        exact .plain htext (ne_nil_of_readsAsText htext) (avoids_of_allowsPlain hallows)
      · exact hquoted hmem
    · rw [if_neg htext]
      exact hquoted hmem

/-! ## The lexer on a record -/

/-- The lexer between two entries, or before the first one: nothing is pending. -/
def flat (ts : List Token) (inside : Bool) (c : Cursor) (allowed : Bool) : LexerState where
  cursor := c
  tokens := ts
  count := ts.length
  indent := if inside then some 0 else none
  outerIndents := if inside then [none] else []
  keyAllowed := allowed

/-- Where a plain scalar may start and nothing else can. -/
structure PlainStart (x : Char) (next : Option Char) : Prop where
  starts : LexerState.startsPlain false x next = true
  percent : x ≠ '%'
  dash : x = '-' → isBlankOrEnd next = false

theorem PlainStart.free {next : Option Char} (h : PlainStart x next) :
    (∀ y ∈ "[]\x7b\x7d,*&!|>'\"".toList, (x == y) = false) ∧
      (x == '-' && isBlankOrEnd next) = false ∧ (x == '?' && isBlankOrEnd next) = false ∧
      (x == ':' && isBlankOrEnd next) = false := by
  have hstarts := h.starts
  have hfree : "[]\x7b\x7d,*&!|>'\"".toList.contains x = false →
      ∀ y ∈ "[]\x7b\x7d,*&!|>'\"".toList, (x == y) = false := by
    intro hlisted y hy
    rw [beq_eq_false_iff_ne]
    rintro rfl
    rw [List.contains_iff_mem.mpr hy] at hlisted
    exact absurd hlisted (by decide)
  by_cases hdash : x = '-'
  · obtain rfl := hdash
    refine ⟨hfree (by decide), ?_, rfl, rfl⟩
    rw [h.dash rfl]
    rfl
  by_cases hquery : x = '?'
  · obtain rfl := hquery
    have hnext : isBlankOrEnd next = false := Bool.not_eq_true' _ ▸ hstarts
    refine ⟨hfree (by decide), rfl, ?_, rfl⟩
    rw [hnext]
    rfl
  by_cases hcolon : x = ':'
  · obtain rfl := hcolon
    have hnext : isBlankOrEnd next = false := Bool.not_eq_true' _ ▸ hstarts
    refine ⟨hfree (by decide), rfl, rfl, ?_⟩
    rw [hnext]
    rfl
  · rw [beq_eq_false_iff_ne.mpr hdash, beq_eq_false_iff_ne.mpr hquery,
      beq_eq_false_iff_ne.mpr hcolon]
    have hlisted : "-?:,[]\x7b\x7d#&*!|>'\"%@`".toList.contains x = false := by
      rw [LexerState.startsPlain, if_neg (by rwa [beq_iff_eq]), if_neg, Bool.not_eq_true']
        at hstarts
      · exact hstarts
      · rw [Bool.or_eq_true, beq_iff_eq, beq_iff_eq, not_or]
        exact ⟨hquery, hcolon⟩
    have hall : ∀ y ∈ "[]\x7b\x7d,*&!|>'\"".toList,
        "-?:,[]\x7b\x7d#&*!|>'\"%@`".toList.contains y = true := List.all_eq_true.mp (by decide)
    refine ⟨hfree ?_, rfl, rfl, rfl⟩
    rw [Bool.eq_false_iff, Ne, List.contains_iff_mem]
    intro hmem
    rw [hall x hmem] at hlisted
    exact absurd hlisted (by decide)

theorem PlainStart.next? {s : LexerState} (h : PlainStart x (s.cursor.peekAt 1))
    (hflow : s.inFlow = false) (hmarker : s.cursor.atDocumentMarker = false) :
    s.next? x = s.noteCandidate?.bind fun s' =>
      (plain? false (match s'.indent with | some n => n + 1 | none => 0) s.cursor).bind fun r =>
        some ({ s' with cursor := r.2.2, keyAllowed := r.2.1 }.emit (.scalar .plain r.1)) := by
  rw [Cursor.atDocumentMarker, Bool.or_eq_false_iff] at hmarker
  obtain ⟨hfree, hdash, hquery, hcolon⟩ := h.free
  have hpercent : (x == '%') = false := beq_eq_false_iff_ne.mpr h.percent
  unfold LexerState.next?
  simp only [hflow, hmarker.1, hmarker.2, hpercent, hdash, hquery, hcolon, h.starts,
    hfree '[' (by decide), hfree ']' (by decide), hfree '\x7b' (by decide),
    hfree '\x7d' (by decide), hfree ',' (by decide), hfree '*' (by decide), hfree '&' (by decide),
    hfree '!' (by decide), hfree '|' (by decide), hfree '>' (by decide), hfree '\'' (by decide),
    hfree '"' (by decide), Bool.and_false, Bool.false_and, Bool.false_or, Bool.false_eq_true,
    if_false, if_true]
  rfl

theorem plainStart_of_unplain {cs : List Char} (h : unplain none x cs = false) (t : List Char) :
    PlainStart x (cs ++ '\n' :: t).head? := by
  simp only [unplain, Bool.or_eq_false_iff] at h
  obtain ⟨⟨⟨⟨hindicator, -⟩, -⟩, -⟩, -⟩ := h
  have hindicator : ("#,[]\x7b\x7d&*!|>'\"%@`".toList.contains x ||
      ((x == '?' || x == ':' || x == '-') && isBlankOrEnd cs.head?)) = false := hindicator
  rw [Bool.or_eq_false_iff] at hindicator
  obtain ⟨hlisted, hmarks⟩ := hindicator
  have hne : ∀ y, "#,[]\x7b\x7d&*!|>'\"%@`".toList.contains y = true → x ≠ y := by
    rintro y hy rfl
    rw [hlisted] at hy
    exact absurd hy (by decide)
  -- three marks may start a plain scalar, if a character of it follows them at once
  have hnext : (x == '?' || x == ':' || x == '-') = true →
      ∃ y, (cs ++ '\n' :: t).head? = some y ∧ (isBlank y || isBreak y) = false := by
    intro hmark
    rw [hmark, Bool.true_and] at hmarks
    cases cs with
    | nil => exact absurd hmarks (by decide)
    | cons y cs => exact ⟨y, rfl, hmarks⟩
  refine ⟨?_, hne '%' (by decide), ?_⟩
  · by_cases hdash : x = '-'
    · obtain rfl := hdash
      obtain ⟨y, hy, hgap⟩ := hnext rfl
      rw [Bool.or_eq_false_iff] at hgap
      show (!Option.any isBlank (cs ++ '\n' :: t).head?) = true
      rw [hy, Option.any_some, hgap.1]
      rfl
    by_cases hquery : x = '?' ∨ x = ':'
    · obtain ⟨y, hy, hgap⟩ := hnext (by rcases hquery with rfl | rfl <;> rfl)
      have hend : (!false && !isBlankOrEnd (cs ++ '\n' :: t).head?) = true := by
        rw [hy, isBlankOrEnd, hgap]
        rfl
      rcases hquery with rfl | rfl <;> exact hend
    · rw [not_or] at hquery
      rw [LexerState.startsPlain, if_neg (by rwa [beq_iff_eq]), if_neg, Bool.not_eq_true',
        Bool.eq_false_iff, Ne, List.contains_iff_mem]
      · intro hmem
        have hall : ∀ y ∈ "-?:,[]\x7b\x7d#&*!|>'\"%@`".toList, (y == '-' || y == '?' || y == ':' ||
            "#,[]\x7b\x7d&*!|>'\"%@`".toList.contains y) = true := List.all_eq_true.mp (by decide)
        have hlisted := hall x hmem
        simp only [Bool.or_eq_true, beq_iff_eq] at hlisted
        rcases hlisted with ((h | h) | h) | h
        · exact hdash h
        · exact hquery.1 h
        · exact hquery.2 h
        · exact hne x h rfl
      · rw [Bool.or_eq_true, beq_iff_eq, beq_iff_eq, not_or]
        exact hquery
  · rintro rfl
    obtain ⟨y, hy, hgap⟩ := hnext rfl
    rw [hy]
    exact hgap

/-! ## Scalars -/

theorem next?_plain_flat {text : String} {c' : Cursor} {broken : Bool} {cs : List Char}
    (h : PlainStart x cs.head?)
    (hread : plain? false 1 ⟨x :: cs, i, l, k + 1⟩ = some (text, broken, c')) :
    (flat ts true ⟨x :: cs, i, l, k + 1⟩ false).next? x =
      some (flat (.scalar .plain text :: ts) true c' broken) := by
  have hnext : (⟨x :: cs, i, l, k + 1⟩ : Cursor).peekAt 1 = cs.head? := by
    rw [List.head?_eq_getElem?]
    rfl
  rw [PlainStart.next? (s := flat ts true ⟨x :: cs, i, l, k + 1⟩ false) (hnext ▸ h) rfl rfl]
  show (plain? false 1 ⟨x :: cs, i, l, k + 1⟩).bind _ = _
  rw [hread]
  rfl

theorem next?_single_flat {text : String} {c' : Cursor}
    (hread : quoted? true ⟨'\'' :: w, i, l, k + 1⟩ = some (text, c')) :
    (flat ts inside ⟨'\'' :: w, i, l, k + 1⟩ false).next? '\'' =
      some (flat (.scalar .singleQuoted text :: ts) inside c' false) := by
  show LexerState.node? _ ((quoted? true ⟨'\'' :: w, i, l, k + 1⟩).map _) = _
  rw [hread]
  rfl

theorem next?_double_flat {text : String} {c' : Cursor}
    (hread : quoted? false ⟨'"' :: w, i, l, k + 1⟩ = some (text, c')) :
    (flat ts inside ⟨'"' :: w, i, l, k + 1⟩ false).next? '"' =
      some (flat (.scalar .doubleQuoted text :: ts) inside c' false) := by
  show LexerState.node? _ ((quoted? false ⟨'"' :: w, i, l, k + 1⟩).map _) = _
  rw [hread]
  rfl

theorem next?_literal_flat {text : String} {c' : Cursor}
    (hread : block? false (some 0) ⟨'|' :: w, i, l, k + 1⟩ = some (text, c')) :
    (flat ts true ⟨'|' :: w, i, l, k + 1⟩ false).next? '|' =
      some (flat (.scalar .literal text :: ts) true c' true) := by
  show (block? false (some 0) ⟨'|' :: w, i, l, k + 1⟩).bind _ = _
  rw [hread]
  rfl

/-! ## Values -/

def valueText (value : String) : List Char :=
  (written (styleFor value) value.toList).1 ++
    (if (written (styleFor value) value.toList).2 then [] else ['\n'])

/-- What may follow the line of an entry: empty lines, then another entry or the marker of the start
or of the end of a document. -/
def Resumes (t : List Char) : Prop :=
  ∀ x, (afterFeeds t).head? = some x → (x.isAlpha || x == '-' || x == '.') = true

/-- What no gap is part of. -/
structure Solid (x : Char) : Prop where
  gap : (isBlank x || isBreak x) = false
  comment : x ≠ '#'
  mark : x ≠ '\ufeff'

theorem solid_of_resumes (hx : (x.isAlpha || x == '-' || x == '.') = true) : Solid x := by
  have hne : ∀ y : Char, (y.isAlpha || y == '-' || y == '.') = false → x ≠ y := by
    rintro y hy rfl
    rw [hx] at hy
    exact absurd hy (by decide)
  refine ⟨?_, hne '#' (by decide), hne '\ufeff' (by decide)⟩
  simp only [isBlank, isBreak, Bool.or_eq_false_iff, beq_eq_false_iff_ne]
  exact ⟨⟨hne ' ' (by decide), hne '\t' (by decide)⟩,
    ⟨⟨⟨hne '\n' (by decide), hne '\r' (by decide)⟩, hne '\u0085' (by decide)⟩,
      hne '\u2028' (by decide)⟩, hne '\u2029' (by decide)⟩

theorem Resumes.lineTail (h : Resumes t) : LineTail t := fun x hx => (solid_of_resumes (h x hx)).gap

/-- Where the lexer stands behind a value: at the end of its line, or already at the next one. -/
inductive Ends (t : List Char) : Cursor → Bool → Prop where
  | here {c : Cursor} {allowed : Bool} : c.rest = '\n' :: t → Ends t c allowed
  | behind {c : Cursor} : c.rest = afterFeeds t → c.column = 0 → Ends t c true

/-- Where the value of an entry stands, the lexer reads a source as one scalar, up to the end of the
line in front of `t`. -/
def ReadsScalar (style : Style) (value : String) (t source : List Char) : Prop :=
  ∃ x w, source = x :: w ∧ Solid x ∧ ∀ ts i l k, ∃ c' allowed,
    (flat ts true ⟨source, i, l, k + 1⟩ false).next? x =
      some (flat (.scalar style value :: ts) true c' allowed) ∧ Ends t c' allowed

theorem solid_of_unplain {cs : List Char} (h : unplain none x cs = false) : Solid x := by
  have hblank : x ≠ ' ' := by
    rintro rfl
    simp only [unplain, Bool.or_eq_false_iff] at h
    exact absurd h.1.2 (by decide)
  have hmark : x ≠ '\ufeff' := by
    rintro rfl
    simp only [unplain, Bool.or_eq_false_iff, Bool.not_eq_false'] at h
    exact absurd h.1.1.1.2 (by decide)
  exact ⟨isGap_of_unplain h hblank, hash_of_unplain h rfl, hmark⟩

theorem readsScalar_plain (ht : LineTail t) (hne : value.toList ≠ [])
    (havoid : Avoids unplain none value.toList) :
    ReadsScalar .plain value t (value.toList ++ '\n' :: t) := by
  have hself : String.ofList value.toList = value := String.ofList_toList
  obtain ⟨x, cs, hcs⟩ := List.exists_cons_of_ne_nil hne
  rw [hcs] at havoid hself ⊢
  refine ⟨x, cs ++ '\n' :: t, rfl, solid_of_unplain havoid.1, fun ts i l k => ?_⟩
  obtain ⟨c', hread, hrest, hcolumn⟩ := plain?_written (t := t)
    (c := ⟨x :: cs ++ '\n' :: t, i, l, k + 1⟩) (List.cons_ne_nil _ _) havoid rfl ht (Nat.succ_pos k)
  rw [hself] at hread
  exact ⟨c', true, next?_plain_flat (plainStart_of_unplain havoid.1 t) hread,
    .behind hrest hcolumn⟩

theorem readsScalar_single (hfeed : '\n' ∉ value.toList)
    (havoid : Avoids unquotable none value.toList) :
    ReadsScalar .singleQuoted value t
      ('\'' :: singleQuotedBody false value.toList ++ '\'' :: '\n' :: t) := by
  refine ⟨'\'', _, rfl, ⟨by decide, by decide, by decide⟩, fun ts i l k => ?_⟩
  obtain ⟨c', hread, hrest⟩ := quoted?_single (z := '\n' :: t)
    (c := ⟨'\'' :: singleQuotedBody false value.toList ++ '\'' :: '\n' :: t, i, l, k + 1⟩)
    havoid hfeed rfl (by simp)
  rw [String.ofList_toList] at hread
  exact ⟨c', false, next?_single_flat hread, .here hrest⟩

theorem readsScalar_double (value : String) (t : List Char) :
    ReadsScalar .doubleQuoted value t
      ('"' :: value.toList.flatMap doubleQuotedChar ++ '"' :: '\n' :: t) := by
  refine ⟨'"', _, rfl, ⟨by decide, by decide, by decide⟩, fun ts i l k => ?_⟩
  obtain ⟨c', hread, hrest⟩ := quoted?_double value.toList (z := '\n' :: t)
    (c := ⟨'"' :: value.toList.flatMap doubleQuotedChar ++ '"' :: '\n' :: t, i, l, k + 1⟩)
    rfl (by simp)
  rw [String.ofList_toList] at hread
  exact ⟨c', false, next?_double_flat hread, .here hrest⟩

theorem readsScalar_literal (ht : LineTail t) (hne : value.toList ≠ [])
    (havoid : Avoids unblockable none value.toList)
    (hopen : keepsBreaks value.toList = true → t.head? ≠ some '\n') :
    ReadsScalar .literal value t (literalHeader value.toList ++ '\n' ::
      (literalBody true value.toList ++ (closer value.toList ++ t))) := by
  refine ⟨'|', _, rfl, ⟨by decide, by decide, by decide⟩, fun ts i l k => ?_⟩
  obtain ⟨c', hread, hrest, hcolumn⟩ := block?_written (t := t)
    (c := ⟨literalHeader value.toList ++ '\n' ::
      (literalBody true value.toList ++ (closer value.toList ++ t)), i, l, k + 1⟩)
    havoid hne ht hopen rfl
  rw [String.ofList_toList] at hread
  exact ⟨c', true, next?_literal_flat hread, .behind hrest hcolumn⟩

/-- **A value** is read as one scalar with the text that was written. -/
theorem readsScalar_value (ht : Resumes t)
    (hopen : styleFor value = .literal → keepsBreaks value.toList = true → t.head? ≠ some '\n') :
    ReadsScalar (styleFor value) value t (valueText value ++ t) := by
  have hsuits := suits_styleFor value
  rw [valueText]
  generalize styleFor value = style at hsuits hopen
  cases hsuits with
  | plain htext hne havoid =>
      have hsource : value.toList ++ ['\n'] ++ t = value.toList ++ '\n' :: t :=
        List.append_assoc ..
      exact hsource ▸ readsScalar_plain ht.lineTail hne havoid
  | singleQuoted hfeed havoid =>
      have hsource : '\'' :: singleQuotedBody false value.toList ++ ['\''] ++ ['\n'] ++ t =
          '\'' :: singleQuotedBody false value.toList ++ '\'' :: '\n' :: t := by
        simp only [List.append_assoc, List.cons_append, List.nil_append]
      exact hsource ▸ readsScalar_single hfeed havoid
  | doubleQuoted =>
      have hsource : '"' :: value.toList.flatMap doubleQuotedChar ++ ['"'] ++ ['\n'] ++ t =
          '"' :: value.toList.flatMap doubleQuotedChar ++ '"' :: '\n' :: t := by
        simp only [List.append_assoc, List.cons_append, List.nil_append]
      exact hsource ▸ readsScalar_double value t
  | literal hne havoid =>
      have hsource : literalHeader value.toList ++ '\n' :: literalBody true value.toList ++
          closer value.toList ++ t = literalHeader value.toList ++ '\n' ::
            (literalBody true value.toList ++ (closer value.toList ++ t)) := by
        simp only [List.append_assoc, List.cons_append]
      exact hsource ▸ readsScalar_literal ht.lineTail hne havoid (hopen rfl)

end SourceEdit.Yaml
