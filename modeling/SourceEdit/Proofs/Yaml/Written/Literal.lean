import SourceEdit.Proofs.Yaml.Written.Quoted
import SourceEdit.Yaml.Token.Block

/-!
# Texts in literal blocks read back

The reader takes up line by line what stands behind the indentation. All line ends of the block
come in, those of empty lines behind it too; which of them belong to the text, the header says.
-/

namespace SourceEdit.Yaml

variable {c : Cursor} {a r s t text u v w z : List Char} {b : BlockText} {x y : Char} {fuel : Nat}

/-! ## Lines -/

/-- A line end that stands for itself. -/
def IsLineEnd (y : Char) : Prop := y = '\n' ∨ IsWide y

theorem IsLineEnd.isBreak (h : IsLineEnd y) : isBreak y = true := by
  rcases h with rfl | rfl | rfl <;> rfl

theorem isLineEnd_of_printable (hy : isPrintable y = true) (hbreak : isBreak y = true) :
    IsLineEnd y := by
  simp only [Yaml.isBreak, Bool.or_eq_true, beq_iff_eq] at hbreak
  rcases hbreak with (((rfl | rfl) | rfl) | rfl) | rfl
  · exact Or.inl rfl
  · exact absurd hy (by decide)
  · exact absurd hy (by decide)
  · exact Or.inr (Or.inl rfl)
  · exact Or.inr (Or.inr rfl)

theorem IsLineEnd.skipBreak (h : IsLineEnd y) (hrest : c.rest = y :: z) :
    c.skipBreak = ⟨z, c.index + 1, c.line + 1, 0⟩ ∧ c.breakText = [y] := by
  rw [Cursor.skipBreak, Cursor.breakText, hrest]
  rcases h with rfl | rfl | rfl <;> exact ⟨rfl, rfl⟩

/-- A text up to the first character without a property. -/
theorem exists_stop (p : Char → Bool) (s : List Char) : ∃ w v, s = w ++ v ∧ (∀ y ∈ w, p y = true) ∧
    ∀ x, v.head? = some x → p x = false := by
  refine ⟨s.takeWhile p, s.dropWhile p, List.takeWhile_append_dropWhile.symm,
    List.all_eq_true.mp List.all_takeWhile, fun x hx => ?_⟩
  have hstop := List.head?_dropWhile_not p s
  rw [hx] at hstop
  exact hstop

theorem literalBody_line (hw : ∀ y ∈ w, isBreak y = false) (v : List Char) :
    literalBody false (w ++ v) = w ++ literalBody false v := by
  induction w with
  | nil => rfl
  | cons y w ih =>
      rw [List.cons_append, literalBody, hw y (List.mem_cons_self ..),
        ih fun z hz => hw z (List.mem_cons_of_mem _ hz)]
      rfl

theorem literalBody_ends {bs : List Char} (hbs : ∀ y ∈ bs, isBreak y = true) (u : List Char) :
    literalBody true (bs ++ u) = bs ++ literalBody true u := by
  induction bs with
  | nil => rfl
  | cons y bs ih =>
      rw [List.cons_append, literalBody, if_pos (hbs y (List.mem_cons_self ..)),
        ih fun z hz => hbs z (List.mem_cons_of_mem _ hz)]
      rfl

theorem literalBody_cons {x : Char} (hx : isBreak x = false) (start : Bool) :
    literalBody start (x :: u) =
      (if start then nodeIndent else []) ++ x :: literalBody false u := by
  rw [literalBody, hx]
  rfl

/-- Line ends behind a text need no indentation. -/
theorem literalBody_append {bs : List Char} (hbs : ∀ y ∈ bs, isBreak y = true) (text : List Char)
    (start : Bool) : literalBody start (text ++ bs) = literalBody start text ++ bs := by
  induction text generalizing start with
  | nil =>
      cases bs with
      | nil => rfl
      | cons y bs =>
          have hends := literalBody_ends (fun z hz => hbs z (List.mem_cons_of_mem _ hz)) []
          rw [List.append_nil] at hends
          show literalBody start (y :: bs) = y :: bs
          rw [literalBody, if_pos (hbs y (List.mem_cons_self ..)), hends]
          exact congrArg (y :: ·) (List.append_nil bs)
  | cons x text ih =>
      rw [List.cons_append, literalBody, literalBody, ih, ih]
      split
      · rfl
      · rw [List.append_assoc]
        rfl

/-! ## Gaps -/

/-- What comes behind a block is at the start of a line. -/
def Outside (r : List Char) : Prop := ∀ x, r.head? = some x → (isBlank x || isBreak x) = false

theorem blockGap_of_run {indent deepest : Nat} {run : List Char}
    (hrun : (c.rest.take (if indent = 0 then c.rest.length else indent - c.column)).takeWhile
      (· == ' ') = run) :
    blockGap indent deepest a (fuel + 1) c =
      if (indent = 0 || (c.skipMany run.length).column < indent) &&
          (c.skipMany run.length).peek == some '\t' then none
      else if (c.skipMany run.length).peek.any isBreak then
        blockGap indent (max deepest (c.skipMany run.length).column)
          ((c.skipMany run.length).breakText.reverse ++ a) fuel (c.skipMany run.length).skipBreak
      else some (a, max deepest (c.skipMany run.length).column, c.skipMany run.length) := by
  subst hrun
  rfl

theorem blockGap_stop (deepest fuel : Nat) (hr : Outside r) (hrest : c.rest = r)
    (hcolumn : c.column = 0) : ∃ d, blockGap 2 deepest a (fuel + 1) c = some (a, d, c) := by
  obtain ⟨rest, index, line, column⟩ := c
  obtain rfl : rest = r := hrest
  obtain rfl : column = 0 := hcolumn
  cases rest with
  | nil => exact ⟨_, rfl⟩
  | cons x r =>
      have hx := hr x rfl
      rw [Bool.or_eq_false_iff, isBlank, Bool.or_eq_false_iff] at hx
      obtain ⟨⟨hblank, htab⟩, hbreak⟩ := hx
      have htab : (some x == some '\t') = false := htab
      have hrun : ((x :: r).take 2).takeWhile (· == ' ') = [] :=
        List.takeWhile_cons_of_neg (by rw [hblank]; exact Bool.false_ne_true)
      refine ⟨max deepest 0, ?_⟩
      rw [@blockGap_of_run ⟨x :: r, index, line, 0⟩ a fuel 2 deepest [] hrun]
      show (if (true && some x == some '\t') = true then _ else
        if isBreak x = true then _ else _) = _
      rw [hbreak, htab]
      rfl

/-- Line ends, and the indentation of the line after them. -/
theorem blockGap_ends (deepest : Nat) {bs : List Char} (hbs : ∀ y ∈ bs, IsLineEnd y)
    (hu : ∀ x, u.head? = some x → isBreak x = false) (hr : Outside r)
    (hrest : c.rest = bs ++ (literalBody true u ++ r)) (hcolumn : c.column = 0)
    (hfuel : bs.length < fuel) :
    ∃ d c', blockGap 2 deepest a fuel c = some (bs.reverse ++ a, d, c') ∧
      c'.rest = literalBody false u ++ r ∧ c'.column = if u.isEmpty then 0 else 2 := by
  induction bs generalizing c a deepest fuel with
  | nil =>
      obtain ⟨fuel, rfl⟩ : ∃ k, fuel = k + 1 := ⟨fuel - 1, by omega⟩
      cases u with
      | nil =>
          obtain ⟨d, hread⟩ := blockGap_stop (a := a) deepest fuel hr hrest
            hcolumn
          exact ⟨d, c, hread, hrest, hcolumn⟩
      | cons x u =>
          obtain ⟨rest, index, line, column⟩ := c
          obtain rfl : column = 0 := hcolumn
          have hx := hu x rfl
          rw [literalBody_cons hx] at hrest
          obtain rfl : rest = ' ' :: ' ' :: x :: (literalBody false u ++ r) := hrest
          refine ⟨max deepest 2, ⟨x :: (literalBody false u ++ r), index + 2, line, 2⟩, ?_, ?_, rfl⟩
          · show (if isBreak x = true then _ else _) = _
            rw [hx]
            rfl
          · rw [literalBody_cons hx]
            rfl
  | cons y bs ih =>
      obtain ⟨fuel, rfl⟩ : ∃ k, fuel = k + 1 := ⟨fuel - 1, by omega⟩
      have hy := hbs y (List.mem_cons_self ..)
      obtain ⟨hskip, htext⟩ := hy.skipBreak (z := bs ++ (literalBody true u ++ r)) hrest
      obtain ⟨d, c', hread, hrest', hcolumn'⟩ := ih (a := y :: a)
        (c := ⟨bs ++ (literalBody true u ++ r), c.index + 1, c.line + 1, 0⟩) (max deepest 0)
        (fun z hz => hbs z (List.mem_cons_of_mem _ hz)) rfl rfl (Nat.lt_of_succ_lt_succ hfuel)
      refine ⟨d, c', ?_, hrest', hcolumn'⟩
      rw [List.reverse_cons, List.append_assoc]
      refine Eq.trans ?_ hread
      obtain ⟨rest, index, line, column⟩ := c
      obtain rfl : column = 0 := hcolumn
      obtain rfl : rest = y :: (bs ++ (literalBody true u ++ r)) := hrest
      rcases hy with rfl | rfl | rfl <;> rfl

/-! ## Lines of text -/

/-- What the reader has collected: all of the text so far, cut into the text up to the end of the
last line, the end of that line, and the line ends behind it. -/
structure Collects (b : BlockText) (a : List Char) : Prop where
  all : b.breaks ++ b.lineEnd ++ b.text = a
  ends : ∀ y ∈ b.breaks ++ b.lineEnd, isBreak y = true
  line : (b.lineEnd = [] ∧ b.text = []) ∨
    ∃ e x u, b.lineEnd = [e] ∧ b.text = x :: u ∧ isBreak x = false

/-- One line more, and the line ends behind it. -/
theorem Collects.of_line {line bs text : List Char} {e : Char} {led : Bool} (hline : line ≠ [])
    (hbreaks : ∀ y ∈ line, isBreak y = false) (hends : ∀ y ∈ e :: bs, IsLineEnd y) :
    Collects ⟨line.reverse ++ text, [e], bs.reverse, led⟩
      (bs.reverse ++ [e] ++ (line.reverse ++ text)) := by
  refine ⟨rfl, fun y hy => (hends y ?_).isBreak, Or.inr ?_⟩
  · rw [List.mem_append, List.mem_reverse, List.mem_singleton] at hy
    rw [List.mem_cons]
    exact hy.symm
  · obtain ⟨x, w, hw⟩ := List.exists_cons_of_ne_nil (List.reverse_ne_nil_iff.mpr hline)
    refine ⟨e, x, w ++ text, rfl, by rw [hw]; rfl, ?_⟩
    exact hbreaks x (by rw [← List.mem_reverse, hw]; exact List.mem_cons_self ..)

/-- A text starts with a line, if not with a line end, and ends with one. -/
structure InLines (s : List Char) : Prop where
  printable : ∀ y ∈ s, isPrintable y = true
  starts : ∀ x, s.head? = some x → isBreak x = false
  ends : ∀ x, s.getLast? = some x → isBreak x = true

theorem InLines.exists_line (h : InLines s) (hs : s ≠ []) : ∃ line e bs u,
    s = line ++ e :: (bs ++ u) ∧ line ≠ [] ∧ (∀ y ∈ line, isBreak y = false) ∧
      (∀ y ∈ e :: bs, IsLineEnd y) ∧ InLines u := by
  obtain ⟨line, v, rfl, hline, hv⟩ := exists_stop (fun y => !isBreak y) s
  simp only [Bool.not_eq_true'] at hline
  simp only [Bool.not_eq_false'] at hv
  have hne : line ≠ [] := by
    rintro rfl
    obtain ⟨x, v, rfl⟩ := List.exists_cons_of_ne_nil hs
    exact absurd (hv x rfl) (by rw [h.starts x rfl]; exact Bool.false_ne_true)
  cases v with
  | nil =>
      have hlast := h.ends (line.getLast hne)
        (by rw [List.append_nil, List.getLast?_eq_some_getLast])
      rw [hline _ (List.getLast_mem hne)] at hlast
      exact absurd hlast Bool.false_ne_true
  | cons e v =>
      obtain ⟨bs, u, rfl, hbs, hu⟩ := exists_stop isBreak v
      have hend : ∀ y ∈ e :: bs, IsLineEnd y := by
        intro y hy
        refine isLineEnd_of_printable (h.printable y (List.mem_append_right _ ?_)) ?_
        · exact List.mem_append_left u hy
        · rcases List.mem_cons.mp hy with rfl | hy
          · exact hv y rfl
          · exact hbs y hy
      refine ⟨line, e, bs, u, rfl, hne, hline, hend, ?_, hu, fun x hx => ?_⟩
      · intro y hy
        exact h.printable y
          (List.mem_append_right _ (List.mem_cons_of_mem _ (List.mem_append_right _ hy)))
      · refine h.ends x ?_
        rw [List.getLast?_append, List.getLast?_cons, List.getLast?_append, hx]
        rfl

/-- One line of text, up to the next. -/
theorem blockLines_succ (b : BlockText) (fuel : Nat) {e : Char} (hrest : c.rest = w ++ e :: z)
    (hw : w ≠ [])
    (hline : ∀ y ∈ w, isBreak y = false) (he : IsLineEnd e) (hcolumn : c.column = 2) :
    ∃ i l led, blockLines false 2 b (fuel + 1) c =
      match blockGap 2 0 [] (z.length + 3) ⟨z, i, l, 0⟩ with
      | none => none
      | some (breaks, _, c) => blockLines false 2
          ⟨w.reverse ++ (b.breaks ++ b.lineEnd ++ b.text), [e], breaks, led⟩ fuel c := by
  have hstop : (w ++ e :: z).takeWhile (fun x => !isBreak x) = w := by
    rw [List.takeWhile_append_of_pos (fun y hy => by rw [hline y hy]; rfl),
      List.takeWhile_cons_of_neg (by rw [he.isBreak]; decide), List.append_nil]
  have hspan : c.spanText (fun x => !isBreak x) = w := by
    rw [Cursor.spanText, hrest, hstop]
  have hwhile : c.skipWhile (fun x => !isBreak x) =
      ⟨e :: z, c.index + w.length, c.line, c.column + w.length⟩ := by
    rw [Cursor.skipWhile, hrest, hstop, List.drop_left]
  obtain ⟨hskip, htext⟩ := he.skipBreak (z := z)
    (c := ⟨e :: z, c.index + w.length, c.line, c.column + w.length⟩) rfl
  obtain ⟨x, w', rfl⟩ := List.exists_cons_of_ne_nil hw
  have hgo : ¬ (c.column != 2 || c.peek.isNone) = true := by
    rw [Cursor.peek, hrest, hcolumn]
    exact Bool.false_ne_true
  refine ⟨c.index + (x :: w').length + 1, c.line + 1, c.peek.any isBlank, ?_⟩
  rw [blockLines, if_neg hgo]
  dsimp only
  rw [hspan, hwhile, hskip, htext]
  rfl

theorem blockLines_written (hs : InLines s) (hne : s ≠ []) (hr : Outside r)
    (hrest : c.rest = literalBody false s ++ r) (hcolumn : c.column = 2) (hfuel : s.length < fuel) :
    ∃ b' c', blockLines false 2 b fuel c = some (b', c') ∧ c'.rest = r ∧ c'.column = 0 ∧
      Collects b' (s.reverse ++ (b.breaks ++ b.lineEnd ++ b.text)) := by
  -- each round takes up a line and the line ends behind it, so the fuel goes down with the text
  induction fuel generalizing s c b with
  | zero => exact absurd hfuel (Nat.not_lt_zero _)
  | succ fuel ih =>
      obtain ⟨line, e, bs, u, rfl, hline, hbreaks, hends, hu⟩ := hs.exists_line hne
      have he := hends e (List.mem_cons_self ..)
      have hbs : ∀ y ∈ bs, IsLineEnd y := fun y hy => hends y (List.mem_cons_of_mem _ hy)
      have hbody : literalBody false (line ++ e :: (bs ++ u)) =
          line ++ e :: (bs ++ literalBody true u) := by
        rw [literalBody_line hbreaks, literalBody, if_pos he.isBreak,
          literalBody_ends fun y hy => (hbs y hy).isBreak]
      rw [hbody, List.append_assoc, List.cons_append, List.append_assoc] at hrest
      obtain ⟨i, l, led, hstep⟩ := blockLines_succ b fuel hrest hline hbreaks he
        hcolumn
      have hlength : bs.length < (bs ++ (literalBody true u ++ r)).length + 3 := by
        rw [List.length_append]
        omega
      obtain ⟨d, c₁, hgap, hrest₁, hcolumn₁⟩ := blockGap_ends (a := [])
        (c := ⟨bs ++ (literalBody true u ++ r), i, l, 0⟩) 0 hbs hu.starts hr rfl rfl hlength
      rw [hgap, List.append_nil] at hstep
      dsimp only at hstep
      rw [hstep]
      have hall : (line ++ e :: (bs ++ u)).reverse =
          u.reverse ++ (bs.reverse ++ [e] ++ line.reverse) := by
        simp only [List.reverse_append, List.reverse_cons, List.append_assoc]
      cases u with
      | nil =>
          -- the last line: the round that finds nothing more needs a unit of fuel too
          obtain ⟨fuel, rfl⟩ : ∃ k, fuel = k + 1 := by
            refine ⟨fuel - 1, ?_⟩
            have hpos := List.length_pos_iff.mpr hline
            simp only [List.length_append, List.length_cons] at hfuel
            omega
          have hstop : (c₁.column != 2 || c₁.peek.isNone) = true := by
            rw [hcolumn₁]
            rfl
          refine ⟨_, c₁, by rw [blockLines, if_pos hstop], hrest₁, hcolumn₁, ?_⟩
          rw [hall, List.reverse_nil, List.nil_append, List.append_assoc (bs.reverse ++ [e])]
          exact .of_line hline hbreaks hends
      | cons x u =>
          obtain ⟨b', c', hread, hrest', hcolumn', hcollects⟩ := ih
            (b := ⟨line.reverse ++ (b.breaks ++ b.lineEnd ++ b.text), [e], bs.reverse, led⟩) hu
            (by simp) hrest₁ hcolumn₁ (by
              simp only [List.length_append, List.length_cons] at hfuel ⊢
              omega)
          refine ⟨b', c', hread, hrest', hcolumn', ?_⟩
          rw [hall]
          simp only [List.append_assoc] at hcollects ⊢
          exact hcollects

/-! ## The header -/

/-- Whether the indentation of a block has to be told. -/
def startsWide (text : List Char) : Bool := text.head?.any fun x => x == ' ' || isBreak x

def endsLine (text : List Char) : Bool := text.getLast?.any isBreak

def headerOf (text : List Char) : BlockHeader where
  chomping := if keepsBreaks text then .keep else if endsLine text then .clip else .strip
  indent? := if startsWide text then some 2 else none

theorem blockHeader?_literal (hrest : c.rest = literalHeader text ++ '\n' :: z) :
    ∃ i k, blockHeader? c.skip = some (headerOf text, ⟨'\n' :: z, i, c.line, k⟩) := by
  obtain ⟨rest, index, line, column⟩ := c
  obtain rfl : rest = literalHeader text ++ '\n' :: z := hrest
  have hheader : literalHeader text = '|' :: (if startsWide text then ['2'] else []) ++
      (if keepsBreaks text then ['+'] else if endsLine text then [] else ['-']) := rfl
  rw [hheader, headerOf]
  cases startsWide text <;> cases keepsBreaks text <;> cases endsLine text <;> exact ⟨_, _, rfl⟩

/-- Where the indentation is not told, the first line shows it. -/
theorem blockGap_first {i l : Nat} (hx : (isBlank x || isBreak x) = false) :
    blockGap 0 0 [] (fuel + 1) ⟨' ' :: ' ' :: x :: w, i, l, 0⟩ =
      some ([], 2, ⟨x :: w, i + 2, l, 2⟩) := by
  rw [Bool.or_eq_false_iff, isBlank, Bool.or_eq_false_iff] at hx
  obtain ⟨⟨hblank, htab⟩, hbreak⟩ := hx
  have htab : (some x == some '\t') = false := htab
  have hrun : ((' ' :: ' ' :: x :: w).take (w.length + 3)).takeWhile (· == ' ') = [' ', ' '] := by
    show ' ' :: ' ' :: (x :: w.take w.length).takeWhile (· == ' ') = _
    rw [List.takeWhile_cons_of_neg (by rw [hblank]; exact Bool.false_ne_true)]
  rw [@blockGap_of_run ⟨' ' :: ' ' :: x :: w, i, l, 0⟩ [] fuel 0 0 [' ', ' '] hrun]
  show (if (true && some x == some '\t') = true then _ else if isBreak x = true then _ else _) = _
  rw [htab, hbreak]
  rfl

/-! ## The end -/

/-- The cut of what has been collected at the last character of a line. -/
theorem Collects.cut (h : Collects b (v ++ x :: u)) (hv : ∀ y ∈ v, isBreak y = true)
    (hx : isBreak x = false) : b.breaks ++ b.lineEnd = v ∧ b.text = x :: u ∧
      ∃ e, b.lineEnd = [e] := by
  have hdrop : ∀ {E T : List Char} {y : Char}, (∀ z ∈ E, isBreak z = true) → isBreak y = false →
      (E ++ y :: T).dropWhile isBreak = y :: T := by
    intro E T y hE hy
    rw [List.dropWhile_append_of_pos hE, List.dropWhile_cons_of_neg (by rw [hy]; decide)]
  rcases h.line with ⟨hend, htext⟩ | ⟨e, y, w, hend, htext, hy⟩
  · have hall := h.all
    rw [htext, List.append_nil] at hall
    have hbreak := h.ends x (by rw [hall]; exact List.mem_append_right _ (List.mem_cons_self ..))
    rw [hx] at hbreak
    exact absurd hbreak Bool.false_ne_true
  · have hall := h.all
    rw [htext] at hall
    have htail : y :: w = x :: u := by
      rw [← hdrop h.ends hy, hall, hdrop hv hx]
    rw [htail] at hall
    exact ⟨List.append_cancel_right hall, htext.trans htail, e, hend⟩

/-- What the header keeps of what has been collected. -/
def chomped (chomping : Chomping) (b : BlockText) : List Char :=
  match chomping with
  | .strip => b.text
  | .clip => b.lineEnd ++ b.text
  | .keep => b.breaks ++ b.lineEnd ++ b.text

/-- The header of a text keeps just the text, whatever line ends follow it. -/
theorem chomped_headerOf {bs : List Char} (hbs : ∀ y ∈ bs, isBreak y = true) (hne : text ≠ [])
    (hkeep : keepsBreaks text = true → bs = []) (h : Collects b (text ++ bs).reverse) :
    chomped (headerOf text).chomping b = text.reverse := by
  rw [List.reverse_append] at h
  have hbs' : ∀ y ∈ bs.reverse, isBreak y = true := fun y hy => hbs y (List.mem_reverse.mp hy)
  obtain ⟨e, v, hv⟩ := List.exists_cons_of_ne_nil (List.reverse_ne_nil_iff.mpr hne)
  have hlast : endsLine text = isBreak e := by
    rw [endsLine, List.getLast?_eq_head?_reverse, hv]
    rfl
  rw [headerOf]
  dsimp only
  -- all line ends are kept, or the one of the last line, or none
  cases hkeeps : keepsBreaks text with
  | true =>
      rw [hkeep hkeeps] at h
      exact h.all
  | false =>
      rw [hlast]
      cases he : isBreak e with
      | false =>
          rw [hv] at h ⊢
          exact (h.cut hbs' he).2.1
      | true =>
          rw [keepsBreaks, hv] at hkeeps
          cases v with
          | nil =>
              have hkeeps : isBreak e = false := hkeeps
              rw [he] at hkeeps
              exact absurd hkeeps (by decide)
          | cons x v =>
              have hkeeps : (isBreak e && isBreak x) = false := hkeeps
              have hx : isBreak x = false := by
                rwa [he, Bool.true_and] at hkeeps
              rw [hv] at h ⊢
              have hsplit : bs.reverse ++ e :: x :: v = (bs.reverse ++ [e]) ++ x :: v := by
                rw [List.append_assoc]
                rfl
              rw [hsplit] at h
              obtain ⟨hends, htext, e', hend⟩ := h.cut (fun y hy => by
                rcases List.mem_append.mp hy with hy | hy
                · exact hbs' y hy
                · rw [List.mem_singleton.mp hy]
                  exact he) hx
              rw [hend] at hends
              have hee : e' = e := (List.append_inj' hends rfl).2 |> List.singleton_inj.mp
              show b.lineEnd ++ b.text = _
              rw [hend, htext, hee]
              rfl

/-! ## The whole block -/

theorem block?_of_steps {c₁ c₂ c₃ c₄ : Cursor} {bs : List Char} {d : Nat}
    (hheader : blockHeader? c.skip = some (headerOf text, c₁)) (hfinish : c₁.finishLine? = some c₂)
    (hgap : blockGap (if startsWide text then 2 else 0) 0 [] (c₂.rest.length + 2) c₂ =
      some (bs, d, c₃))
    (hdeepest : startsWide text = false → d = 2)
    (hlines : blockLines false 2 { breaks := bs } (c₃.rest.length + 1) c₃ = some (b, c₄)) :
    block? false (some 0) c =
      some (String.ofList (chomped (headerOf text).chomping b).reverse, c₄) := by
  have hindent : (headerOf text).indent? = if startsWide text then some 2 else none := rfl
  cases hwide : startsWide text with
  | true =>
      rw [hwide] at hindent hgap
      simp only [block?, hheader, hfinish, hindent, if_true, Option.bind_eq_bind,
        Option.bind_some, Option.getD_some, Nat.zero_add] at hgap ⊢
      rw [hgap]
      show (blockLines false 2 { breaks := bs } (c₃.rest.length + 1) c₃).bind _ = _
      rw [hlines]
      rfl
  | false =>
      obtain rfl := hdeepest hwide
      rw [hwide] at hindent hgap
      simp only [block?, hheader, hfinish, hindent, Bool.false_eq_true, if_false,
        Option.bind_eq_bind, Option.bind_some] at hgap ⊢
      rw [hgap]
      show (blockLines false 2 { breaks := bs } (c₃.rest.length + 1) c₃).bind _ = _
      rw [hlines]
      rfl

/-- Up to the first line with text. -/
theorem blockGap_written {i l : Nat} (hs : ∀ y ∈ s, isPrintable y = true)
    (hends : ∀ x, s.getLast? = some x → isBreak x = true) (hne : s ≠ []) (hr : Outside r) :
    ∃ bs u d c', s = bs ++ u ∧ (∀ y ∈ bs, isBreak y = true) ∧ InLines u ∧
      blockGap (if startsWide s then 2 else 0) 0 [] ((literalBody true s ++ r).length + 2)
        ⟨literalBody true s ++ r, i, l, 0⟩ = some (bs.reverse, d, c') ∧
      (startsWide s = false → d = 2) ∧ c'.rest = literalBody false u ++ r ∧
      c'.column = if u.isEmpty then 0 else 2 := by
  cases hwide : startsWide s with
  | true =>
      obtain ⟨bs, u, rfl, hbs, hu⟩ := exists_stop isBreak s
      have hend : ∀ y ∈ bs, IsLineEnd y := fun y hy =>
        isLineEnd_of_printable (hs y (List.mem_append_left u hy)) (hbs y hy)
      have hbody : literalBody true (bs ++ u) ++ r = bs ++ (literalBody true u ++ r) := by
        rw [literalBody_ends hbs, List.append_assoc]
      have hlength : bs.length < (literalBody true (bs ++ u) ++ r).length + 2 := by
        rw [hbody, List.length_append]
        omega
      obtain ⟨d, c', hread, hrest, hcolumn⟩ := blockGap_ends (a := [])
        (c := ⟨literalBody true (bs ++ u) ++ r, i, l, 0⟩) 0 hend hu hr hbody rfl hlength
      rw [List.append_nil] at hread
      refine ⟨bs, u, d, c', rfl, hbs, ⟨?_, hu, fun x hx => hends x ?_⟩, hread, by simp, hrest,
        hcolumn⟩
      · exact fun y hy => hs y (List.mem_append_right bs hy)
      · rw [List.getLast?_append, hx]
        rfl
  | false =>
      obtain ⟨x, s, rfl⟩ := List.exists_cons_of_ne_nil hne
      have hwide : (x == ' ' || isBreak x) = false := hwide
      rw [Bool.or_eq_false_iff] at hwide
      have hblank : isBlank x = false := by
        have htab : x ≠ '\t' := by
          rintro rfl
          exact absurd (hs '\t' (List.mem_cons_self ..)) (by decide)
        rw [isBlank, hwide.1, beq_eq_false_iff_ne.mpr htab]
        rfl
      rw [literalBody_cons hwide.2]
      refine ⟨[], x :: s, 2, ⟨x :: (literalBody false s ++ r), i + 2, l, 2⟩, rfl, by simp,
        ⟨hs, fun y hy => ?_, hends⟩, blockGap_first (by rw [hblank, hwide.2]; rfl), fun _ => rfl,
        ?_, rfl⟩
      · obtain rfl := Option.some.inj hy
        exact hwide.2
      · rw [literalBody_cons hwide.2]
        rfl

/-- What follows a text in a record, up to the next line. -/
def closer (text : List Char) : List Char := if endsLine text then [] else ['\n']

theorem printable_of_unblockable (havoid : Avoids unblockable none text) :
    ∀ y ∈ text, isPrintable y = true := by
  have hall : ∀ {before : Option Char} {cs : List Char}, Avoids unblockable before cs →
      ∀ y ∈ cs, isPrintable y = true := by
    intro before cs h
    induction cs generalizing before with
    | nil => exact fun y hy => absurd hy (by simp)
    | cons x cs ih =>
        intro y hy
        rcases List.mem_cons.mp hy with rfl | hy
        · have hbad := h.1
          simp only [unblockable, Bool.or_eq_false_iff, Bool.not_eq_false'] at hbad
          exact hbad.1.1
        · exact ih h.2 y hy
  exact hall havoid

theorem endsLine_of_keepsBreaks (h : keepsBreaks text = true) : endsLine text = true := by
  rw [endsLine, List.getLast?_eq_head?_reverse]
  unfold keepsBreaks at h
  split at h
  · next hreverse =>
    rw [hreverse]
    exact h
  · next hreverse =>
    rw [hreverse]
    exact (Bool.and_eq_true _ _ ▸ h).1
  · exact absurd h Bool.false_ne_true

theorem length_le_literalBody (text : List Char) (start : Bool) :
    text.length ≤ (literalBody start text).length := by
  induction text generalizing start with
  | nil => exact Nat.zero_le _
  | cons y text ih =>
      rw [literalBody]
      split
      · exact Nat.succ_le_succ (ih true)
      · have hrest := ih false
        simp only [List.length_append, List.length_cons]
        omega

/-- The lines behind the first gap. -/
theorem blockLines_behind {bs : List Char} (hbs : ∀ y ∈ bs, isBreak y = true) (hu : InLines u)
    (hr : Outside r) (hrest : c.rest = literalBody false u ++ r)
    (hcolumn : c.column = if u.isEmpty then 0 else 2) :
    ∃ b c', blockLines false 2 { breaks := bs.reverse } (c.rest.length + 1) c = some (b, c') ∧
      c'.rest = r ∧ c'.column = 0 ∧ Collects b (bs ++ u).reverse := by
  cases u with
  | nil =>
      have hstop : (c.column != 2 || c.peek.isNone) = true := by
        rw [hcolumn]
        rfl
      refine ⟨{ breaks := bs.reverse }, c, by rw [blockLines, if_pos hstop], hrest, hcolumn, ?_, ?_,
        Or.inl ⟨rfl, rfl⟩⟩
      · simp only [List.append_nil]
      · intro y hy
        rw [List.append_nil, List.mem_reverse] at hy
        exact hbs y hy
  | cons x u =>
      have hfuel : (x :: u).length < c.rest.length + 1 := by
        have hle := length_le_literalBody (x :: u) false
        rw [hrest, List.length_append]
        omega
      obtain ⟨b, c', hread, hrest', hcolumn', hcollects⟩ := blockLines_written
        (b := { breaks := bs.reverse }) hu (by simp) hr hrest hcolumn hfuel
      refine ⟨b, c', hread, hrest', hcolumn', ?_⟩
      rw [List.reverse_append]
      simpa only [List.append_nil] using hcollects

theorem eq_feed_of_mem_closer {y : Char} {n : Nat}
    (hy : y ∈ closer text ++ List.replicate n '\n') : y = '\n' := by
  rcases List.mem_append.mp hy with hy | hy
  · rw [closer] at hy
    split at hy
    · exact absurd hy (by simp)
    · exact List.mem_singleton.mp hy
  · exact (List.mem_replicate.mp hy).2

/-- With what follows it, a text ends in a line end. -/
theorem isBreak_of_getLast?_closer {x : Char} {n : Nat}
    (hx : (text ++ (closer text ++ List.replicate n '\n')).getLast? = some x) :
    isBreak x = true := by
  rw [List.getLast?_append] at hx
  cases hlast : (closer text ++ List.replicate n '\n').getLast? with
  | some y =>
      rw [hlast] at hx
      obtain rfl := Option.some.inj hx
      rw [eq_feed_of_mem_closer (List.mem_of_getLast? hlast)]
      rfl
  | none =>
      -- nothing follows the text, so it has a line end of its own
      rw [hlast] at hx
      have hempty := (List.append_eq_nil_iff.mp (List.getLast?_eq_none_iff.mp hlast)).1
      have hended : endsLine text = true := by
        rw [closer] at hempty
        split at hempty
        · assumption
        · exact absurd hempty (by simp)
      rw [endsLine, show text.getLast? = some x from hx] at hended
      exact hended

theorem closer_eq_nil_of_keepsBreaks {n : Nat} (hn : t = List.replicate n '\n' ++ afterFeeds t)
    (hkeep : t.head? ≠ some '\n') (hkeeps : keepsBreaks text = true) :
    closer text ++ List.replicate n '\n' = [] := by
  have hzero : n = 0 := by
    cases n with
    | zero => rfl
    | succ n => exact absurd (by rw [hn]; rfl) hkeep
  rw [closer, if_pos (endsLine_of_keepsBreaks hkeeps), hzero]
  rfl

/-- **A text in a literal block** is read back. Where its header keeps line ends, none may follow
that is not of the text. -/
theorem block?_written (havoid : Avoids unblockable none text) (hne : text ≠ []) (ht : LineTail t)
    (hkeep : keepsBreaks text = true → t.head? ≠ some '\n')
    (hrest : c.rest = literalHeader text ++ '\n' :: (literalBody true text ++ (closer text ++ t))) :
    ∃ c', block? false (some 0) c = some (String.ofList text, c') ∧ c'.rest = afterFeeds t ∧
      c'.column = 0 := by
  -- the line ends behind the text are read as lines of the block, and the header drops them
  obtain ⟨n, hn⟩ := afterFeeds_append t
  have hbreaks : ∀ y ∈ closer text ++ List.replicate n '\n', isBreak y = true := by
    intro y hy
    rw [eq_feed_of_mem_closer hy]
    rfl
  have hbody : literalBody true text ++ (closer text ++ t) =
      literalBody true (text ++ (closer text ++ List.replicate n '\n')) ++ afterFeeds t := by
    rw [literalBody_append hbreaks, List.append_assoc, List.append_assoc, ← hn]
  rw [hbody] at hrest
  have hwide : startsWide (text ++ (closer text ++ List.replicate n '\n')) = startsWide text := by
    obtain ⟨x, text, rfl⟩ := List.exists_cons_of_ne_nil hne
    rfl
  have hall : ∀ y ∈ text ++ (closer text ++ List.replicate n '\n'), isPrintable y = true := by
    intro y hy
    rcases List.mem_append.mp hy with hy | hy
    · exact printable_of_unblockable havoid y hy
    · rw [eq_feed_of_mem_closer hy]
      rfl
  have hnone : keepsBreaks text = true → closer text ++ List.replicate n '\n' = [] := fun hkeeps =>
    closer_eq_nil_of_keepsBreaks hn (hkeep hkeeps) hkeeps
  obtain ⟨i, k, hheader⟩ := blockHeader?_literal hrest
  obtain ⟨bs, u, d, c₃, hsplit, hbs, hu, hgap, hdeepest, hrest₃, hcolumn₃⟩ := blockGap_written
    (i := i + 1) (l := c.line + 1) hall (fun _ => isBreak_of_getLast?_closer) (by simp [hne]) ht
  obtain ⟨b, c₄, hlines, hrest₄, hcolumn₄, hcollects⟩ := blockLines_behind hbs hu ht hrest₃ hcolumn₃
  rw [← hsplit] at hcollects
  rw [hwide] at hgap hdeepest
  refine ⟨c₄, ?_, hrest₄, hcolumn₄⟩
  rw [block?_of_steps hheader rfl hgap hdeepest hlines,
    chomped_headerOf hbreaks hne hnone hcollects, List.reverse_reverse]

end SourceEdit.Yaml
