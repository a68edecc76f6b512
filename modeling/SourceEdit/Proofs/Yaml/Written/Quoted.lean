import SourceEdit.Proofs.Yaml.Marker.Quoted
import SourceEdit.Proofs.Yaml.Written.Plain

/-!
# Texts in quotes read back

Within quotes, a text is stretches of characters, each written in some way that the reader turns
back into it, with gaps of blanks or line ends between them. The reader takes up a stretch and the
gap behind it in each round.
-/

namespace SourceEdit.Yaml

variable {c : Cursor} {a b src text u v w z : List Char} {before : Option Char} {x y : Char}
  {single : Bool} {fuel : Nat} {enc : Char → List Char}

/-! ## Stretches -/

/-- A character is read back from how it is written. -/
def ReadsChar (single : Bool) (y : Char) (written : List Char) : Prop :=
  written ≠ [] ∧ ∀ a z fuel (c : Cursor), c.rest = written ++ z →
    ∃ c', quotedRun single { text := a } (fuel + 1) c =
        quotedRun single { text := y :: a } fuel c' ∧ c'.rest = z ∧ c.column ≤ c'.column

/-- Where a stretch ends: at a gap, or at a closing quote. -/
def EndsStretch (single : Bool) (z : List Char) : Prop :=
  ∃ x z', z = x :: z' ∧ ((isBlank x || isBreak x) = true ∨
    (x = closingQuote single ∧ z'.head? ≠ some '\''))

theorem quotedRun_end (h : EndsStretch single z) (hrest : c.rest = z) {f : Folding} :
    quotedRun single f (fuel + 1) c = some (f, c) := by
  obtain ⟨x, z', rfl, h⟩ := h
  have hpeek : c.peek = some x := Cursor.peek_of_rest hrest
  have hnext : c.peekAt 1 = z'.head? := Cursor.peekAt_one_of_rest hrest
  rw [quotedRun, hpeek]
  dsimp only
  rcases h with h | ⟨rfl, h⟩
  · rw [if_pos h]
  · cases single with
    | true =>
        rw [hnext, if_neg (by decide), if_pos rfl, if_pos (by decide), if_neg]
        rw [beq_iff_eq]
        exact h
    | false =>
        rw [if_neg (by decide), if_neg Bool.false_ne_true, if_pos (by decide)]

theorem quotedRun_stretch (henc : ∀ y ∈ w, ReadsChar single y (enc y)) (hz : EndsStretch single z)
    (hrest : c.rest = w.flatMap enc ++ z) (hfuel : w.length < fuel) :
    ∃ c', quotedRun single { text := a } fuel c = some ({ text := w.reverse ++ a }, c') ∧
      c'.rest = z ∧ c.column ≤ c'.column := by
  induction w generalizing c a fuel with
  | nil =>
      obtain ⟨fuel, rfl⟩ : ∃ k, fuel = k + 1 := ⟨fuel - 1, by omega⟩
      exact ⟨c, quotedRun_end hz hrest, hrest, Nat.le_refl _⟩
  | cons y w ih =>
      obtain ⟨fuel, rfl⟩ : ∃ k, fuel = k + 1 := ⟨fuel - 1, by omega⟩
      obtain ⟨c₁, hstep, hrest₁, hcolumn₁⟩ := (henc y (List.mem_cons_self ..)).2 a
        (w.flatMap enc ++ z) fuel c (by rw [hrest, List.flatMap_cons, List.append_assoc])
      obtain ⟨c', hread, hrest', hcolumn'⟩ := ih (a := y :: a)
        (fun z hz => henc z (List.mem_cons_of_mem _ hz)) hrest₁ (Nat.lt_of_succ_lt_succ hfuel)
      refine ⟨c', ?_, hrest', Nat.le_trans hcolumn₁ hcolumn'⟩
      rw [hstep, hread, List.reverse_cons, List.append_assoc]
      rfl

theorem length_le_flatMap (henc : ∀ y ∈ w, ReadsChar single y (enc y)) :
    w.length ≤ (w.flatMap enc).length := by
  induction w with
  | nil => exact Nat.le_refl _
  | cons y w ih =>
      have hpos := List.length_pos_iff.mpr (henc y (List.mem_cons_self ..)).1
      have hrest := ih fun z hz => henc z (List.mem_cons_of_mem _ hz)
      rw [List.flatMap_cons, List.length_append, List.length_cons]
      omega

/-! ## Gaps -/

/-- A gap is read back from how it is written, in front of something else. -/
def ReadsGap (gap written : List Char) : Prop :=
  (∃ x r, written = x :: r ∧ (isBlank x || isBreak x) = true) ∧
    ∀ a z fuel (c : Cursor), c.rest = written ++ z → 0 < c.column → written.length < fuel →
      (∃ x z', z = x :: z' ∧ (isBlank x || isBreak x) = false) →
      ∃ f c', ({ text := a } : Folding).takeAll fuel c = (f, c') ∧
        f.settle = { text := gap.reverse ++ a } ∧ c'.rest = z ∧ 0 < c'.column

theorem takeAll_blanks {n : Nat} (hrest : c.rest = List.replicate n ' ' ++ x :: u)
    (hx : (isBlank x || isBreak x) = false) (hfuel : n < fuel) :
    ∃ c', ({ text := a, blanks := b } : Folding).takeAll fuel c =
        ({ text := a, blanks := List.replicate n ' ' ++ b }, c') ∧
      c'.rest = x :: u ∧ c.column ≤ c'.column := by
  induction n generalizing c b fuel with
  | zero =>
      obtain ⟨fuel, rfl⟩ : ∃ k, fuel = k + 1 := ⟨fuel - 1, by omega⟩
      refine ⟨c, ?_, hrest, Nat.le_refl _⟩
      rw [Folding.takeAll, Cursor.peek, hrest]
      show (if (isBlank x || isBreak x) = true then _ else _) = _
      rw [hx]
      rfl
  | succ n ih =>
      obtain ⟨fuel, rfl⟩ : ∃ k, fuel = k + 1 := ⟨fuel - 1, by omega⟩
      have hpeek : c.peek = some ' ' := Cursor.peek_of_rest hrest
      have hskip :
          c.skip = ⟨List.replicate n ' ' ++ x :: u, c.index + 1, c.line, c.column + 1⟩ :=
        Cursor.skip_of_rest hrest
      rw [Folding.takeAll, hpeek]
      dsimp only
      rw [if_pos (by decide), Folding.take_blank hpeek]
      obtain ⟨c', hread, hrest', hcolumn⟩ := ih (c := c.skip) (b := ' ' :: b)
        (by rw [hskip]) (Nat.lt_of_succ_lt_succ hfuel)
      refine ⟨c', hread.trans ?_, hrest', ?_⟩
      · rw [List.replicate_succ', List.append_assoc]
        rfl
      · rw [hskip] at hcolumn
        exact Nat.le_of_succ_le hcolumn

theorem readsGap_blanks (n : Nat) :
    ReadsGap (List.replicate (n + 1) ' ') (List.replicate (n + 1) ' ') := by
  refine ⟨⟨' ', List.replicate n ' ', rfl, by decide⟩, ?_⟩
  rintro a _ fuel c hrest hcolumn hfuel ⟨x, z, rfl, hx⟩
  rw [List.length_replicate] at hfuel
  obtain ⟨c', hread, hrest', hcolumn'⟩ := takeAll_blanks (a := a) (b := []) hrest hx hfuel
  refine ⟨_, c', hread, ?_, hrest', Nat.lt_of_lt_of_le hcolumn hcolumn'⟩
  rw [List.append_nil, List.reverse_replicate]
  rfl

/-- A wide separator, which stands for itself. -/
def IsWide (x : Char) : Prop := x = '\u2028' ∨ x = '\u2029'

theorem IsWide.isBreak (h : IsWide x) : isBreak x = true := by
  rcases h with rfl | rfl <;> decide

theorem IsWide.notBlank (h : IsWide x) : isBlank x = false := by
  rcases h with rfl | rfl <;> decide

theorem IsWide.gap (h : IsWide x) : (isBlank x || Yaml.isBreak x) = true := by
  rw [h.isBreak, Bool.or_true]

theorem IsWide.skipBreak (h : IsWide x) (hrest : c.rest = x :: y :: u) :
    c.skipBreak = ⟨y :: u, c.index + 1, c.line + 1, 0⟩ ∧ c.breakText = [x] := by
  rw [Cursor.skipBreak_cons hrest, Cursor.breakText, hrest]
  rcases h with rfl | rfl
  · exact ⟨rfl, rfl⟩
  · exact ⟨rfl, rfl⟩

/-- A wide separator is taken up as it stands. -/
theorem Folding.take_wide (h : IsWide x) (hrest : c.rest = x :: y :: u) (f : Folding) :
    f.take c =
      (if f.broken then { f with otherBreaks := x :: f.otherBreaks }
        else { f with blanks := [], broken := true, firstBreak := [x] },
        ⟨y :: u, c.index + 1, c.line + 1, 0⟩) := by
  obtain ⟨hskip, htext⟩ := h.skipBreak hrest
  rw [Folding.take, Cursor.peek_of_rest hrest, hskip, htext]
  dsimp only
  rw [h.notBlank]
  cases f.broken <;> rfl

theorem takeAll_wide (first : List Char) {bs : List Char} (hbs : ∀ y ∈ bs, IsWide y)
    (hrest : c.rest = bs ++ ' ' :: ' ' :: x :: u) (hx : (isBlank x || isBreak x) = false)
    (hfuel : bs.length + 2 < fuel) :
    ∃ c', ({ text := a, broken := true, firstBreak := first, otherBreaks := b } : Folding).takeAll
        fuel c =
          ({ text := a, broken := true, firstBreak := first, otherBreaks := bs.reverse ++ b }, c') ∧
      c'.rest = x :: u ∧ 0 < c'.column := by
  induction bs generalizing c b fuel with
  | nil =>
      obtain ⟨fuel, rfl⟩ : ∃ k, fuel = k + 3 := ⟨fuel - 3, by omega⟩
      refine ⟨⟨x :: u, c.index + 2, c.line, c.column + 2⟩, ?_, rfl, Nat.succ_pos _⟩
      obtain ⟨rest, index, line, column⟩ := c
      obtain rfl : rest = ' ' :: ' ' :: x :: u := hrest
      show (if (isBlank x || isBreak x) = true then _ else _) = _
      rw [hx]
      rfl
  | cons y bs ih =>
      obtain ⟨fuel, rfl⟩ : ∃ k, fuel = k + 1 := ⟨fuel - 1, by omega⟩
      obtain ⟨z, r, hz⟩ : ∃ z r, bs ++ ' ' :: ' ' :: x :: u = z :: r := by
        cases bs <;> exact ⟨_, _, rfl⟩
      have hwide := hbs y (List.mem_cons_self ..)
      have htake := Folding.take_wide hwide (hrest.trans (congrArg (y :: ·) hz))
        { text := a, broken := true, firstBreak := first, otherBreaks := b }
      rw [← hz] at htake
      obtain ⟨c', hread, hrest', hcolumn'⟩ := ih (b := y :: b)
        (c := ⟨bs ++ ' ' :: ' ' :: x :: u, c.index + 1, c.line + 1, 0⟩)
        (fun z hz => hbs z (List.mem_cons_of_mem _ hz)) rfl (Nat.lt_of_succ_lt_succ hfuel)
      refine ⟨c', ?_, hrest', hcolumn'⟩
      rw [Folding.takeAll, Cursor.peek_of_rest hrest]
      dsimp only
      rw [if_pos hwide.gap, htake]
      refine hread.trans ?_
      rw [List.reverse_cons, List.append_assoc]
      rfl

theorem readsGap_wide {x : Char} {bs : List Char} (hgap : ∀ y ∈ x :: bs, IsWide y) :
    ReadsGap (x :: bs) (x :: bs ++ nodeIndent) := by
  have hwide := hgap x (List.mem_cons_self ..)
  refine ⟨⟨x, bs ++ nodeIndent, rfl, hwide.gap⟩, ?_⟩
  rintro a _ fuel c hrest hcolumn hfuel ⟨y, z, rfl, hy⟩
  have hrest : c.rest = x :: (bs ++ ' ' :: ' ' :: y :: z) := by
    rw [hrest, List.append_assoc]
    rfl
  obtain ⟨fuel, rfl⟩ : ∃ k, fuel = k + 1 := ⟨fuel - 1, by omega⟩
  obtain ⟨z', r, hz⟩ : ∃ z' r, bs ++ ' ' :: ' ' :: y :: z = z' :: r := by
    cases bs <;> exact ⟨_, _, rfl⟩
  have htake := Folding.take_wide hwide (hrest.trans (congrArg (x :: ·) hz)) { text := a }
  rw [← hz] at htake
  simp only [List.length_append, List.length_cons, nodeIndent, List.length_nil] at hfuel
  have hlength : bs.length + 2 < fuel := by omega
  obtain ⟨c', hread, hrest', hcolumn'⟩ := takeAll_wide (a := a) (b := [])
    (c := ⟨bs ++ ' ' :: ' ' :: y :: z, c.index + 1, c.line + 1, 0⟩) [x]
    (fun z hz => hgap z (List.mem_cons_of_mem _ hz)) rfl hy hlength
  refine ⟨{ text := a, broken := true, firstBreak := [x], otherBreaks := bs.reverse ++ [] }, c', ?_,
    ?_, hrest', hcolumn'⟩
  · rw [Folding.takeAll, Cursor.peek_of_rest hrest]
    dsimp only
    rw [if_pos hwide.gap, htake]
    exact hread
  · have hfeed : ([x] == ['\n']) = false := by
      rcases hwide with rfl | rfl <;> decide
    rw [Folding.settle]
    dsimp only
    rw [if_pos rfl, hfeed, List.append_nil, List.reverse_cons]
    rfl

/-! ## Rounds -/

/-- One round of the reader: a stretch, and the closing quote or a gap. -/
theorem quotedLoop_succ {f g : Folding} {c₁ : Cursor} (hcolumn : 0 < c.column)
    (hpeek : c.peek.isNone = false)
    (hrun : quotedRun single f (c.rest.length + 1) c = some (g, c₁)) :
    quotedLoop single f (fuel + 1) c =
      if c₁.peek == some (closingQuote single) then some (String.ofList g.text.reverse, c₁.skip)
      else
        quotedLoop single (g.takeAll (c₁.rest.length + 1) c₁).1.settle fuel
          (g.takeAll (c₁.rest.length + 1) c₁).2 := by
  rw [quotedLoop, atDocumentMarker_of_column hcolumn, hpeek, hrun]
  rfl

theorem quotedLoop_end (fuel : Nat) (henc : ∀ y ∈ w, ReadsChar single y (enc y))
    (hz : z.head? ≠ some '\'')
    (hrest : c.rest = w.flatMap enc ++ closingQuote single :: z) (hcolumn : 0 < c.column) :
    ∃ c', quotedLoop single { text := a } (fuel + 1) c =
      some (String.ofList (a.reverse ++ w), c') ∧ c'.rest = z := by
  have hlength : w.length < c.rest.length + 1 := by
    have hle := length_le_flatMap henc
    rw [hrest, List.length_append]
    omega
  obtain ⟨c₁, hrun, hrest₁, -⟩ := quotedRun_stretch (a := a) henc
    ⟨_, z, rfl, Or.inr ⟨rfl, hz⟩⟩ hrest hlength
  have hpeek : c.peek.isNone = false := by
    rw [Cursor.peek, hrest]
    cases w.flatMap enc <;> rfl
  have hclosing : c₁.peek = some (closingQuote single) := Cursor.peek_of_rest hrest₁
  refine ⟨c₁.skip, ?_, ?_⟩
  · rw [quotedLoop_succ hcolumn hpeek hrun, hclosing, if_pos (beq_self_eq_true _),
      List.reverse_append, List.reverse_reverse]
  · rw [Cursor.skip, hrest₁]

theorem quotedLoop_round (fuel : Nat) (henc : ∀ y ∈ w, ReadsChar single y (enc y)) {gap : List Char}
    (hgap : ReadsGap gap src) (hz : ∃ x z', z = x :: z' ∧ (isBlank x || isBreak x) = false)
    (hrest : c.rest = w.flatMap enc ++ (src ++ z)) (hcolumn : 0 < c.column) :
    ∃ c', quotedLoop single { text := a } (fuel + 1) c =
        quotedLoop single { text := (w ++ gap).reverse ++ a } fuel c' ∧ c'.rest = z ∧
      0 < c'.column := by
  have hlength : w.length < c.rest.length + 1 := by
    have hle := length_le_flatMap henc
    rw [hrest, List.length_append]
    omega
  obtain ⟨⟨x, r, rfl, hx⟩, hread⟩ := hgap
  obtain ⟨c₁, hrun, hrest₁, hcolumn₁⟩ := quotedRun_stretch (a := a) henc
    ⟨x, r ++ z, rfl, Or.inl hx⟩ hrest hlength
  have hpeek : c.peek.isNone = false := by
    rw [Cursor.peek, hrest]
    cases w.flatMap enc <;> rfl
  have hopen : ¬ (c₁.peek == some (closingQuote single)) = true := by
    rw [Cursor.peek, hrest₁, beq_iff_eq, List.head?_cons, Option.some.injEq]
    rintro rfl
    cases single <;> exact absurd hx (by decide)
  obtain ⟨f, c', htake, hsettle, hrest', hcolumn'⟩ := hread (w.reverse ++ a) z
    (c₁.rest.length + 1) c₁ hrest₁ (Nat.lt_of_lt_of_le hcolumn hcolumn₁)
    (by rw [hrest₁]; simp only [List.length_cons, List.length_append]; omega) hz
  refine ⟨c', ?_, hrest', hcolumn'⟩
  rw [quotedLoop_succ hcolumn hpeek hrun, if_neg hopen, htake, hsettle, List.reverse_append,
    List.append_assoc]

end SourceEdit.Yaml
