import SourceEdit.Proofs.Yaml.Marker.Cursor
import SourceEdit.Proofs.Yaml.Written.Traits
import SourceEdit.Yaml.Token.Plain

/-!
# Texts without quotes read back

A text that is written plain is words with blanks between them. The reader takes it up word by word,
and the line end after it closes the scalar, because the next line is not indented.
-/

namespace SourceEdit.Yaml

variable {bad : Option Char → Char → List Char → Bool} {c : Cursor} {a b text t u v w : List Char}
  {before : Option Char} {x : Char}
  {fuel : Nat}

/-! ## Between lines -/

def afterFeeds (t : List Char) : List Char := t.dropWhile (· == '\n')

theorem afterFeeds_append (t : List Char) : ∃ n, t = List.replicate n '\n' ++ afterFeeds t := by
  induction t with
  | nil => exact ⟨0, rfl⟩
  | cons y t ih =>
      by_cases hy : y = '\n'
      · obtain ⟨n, hn⟩ := ih
        obtain rfl := hy
        exact ⟨n + 1, congrArg ('\n' :: ·) hn⟩
      · refine ⟨0, ?_⟩
        rw [afterFeeds, List.dropWhile_cons_of_neg (by rwa [beq_iff_eq])]
        rfl

theorem afterFeeds_afterFeeds (t : List Char) : afterFeeds (afterFeeds t) = afterFeeds t := by
  induction t with
  | nil => rfl
  | cons y t ih =>
      by_cases hy : y = '\n'
      · obtain rfl := hy
        exact ih
      · have hafter : afterFeeds (y :: t) = y :: t :=
          List.dropWhile_cons_of_neg (by rwa [beq_iff_eq])
        rw [hafter, hafter]

/-- What may follow a line of a record: empty lines, then something at the start of a line. -/
def LineTail (t : List Char) : Prop :=
  ∀ x, (afterFeeds t).head? = some x → (isBlank x || isBreak x) = false

theorem LineTail.of_feed (h : LineTail ('\n' :: t)) : LineTail t := h

theorem plainGap_feeds {f : Folding} (hf : f.broken = true) (ht : LineTail t) (hrest : c.rest = t)
    (hcolumn : c.column = 0) (hfuel : t.length < fuel) :
    ∃ g c', plainGap 1 f fuel c = some (g, c') ∧ g.text = f.text ∧ g.broken = true ∧
      c'.rest = afterFeeds t ∧ c'.column = 0 := by
  induction t generalizing c f fuel with
  | nil =>
      obtain ⟨fuel, rfl⟩ : ∃ k, fuel = k + 1 := ⟨fuel - 1, by omega⟩
      refine ⟨f, c, ?_, rfl, hf, hrest, hcolumn⟩
      rw [plainGap, Cursor.peek, hrest]
      rfl
  | cons y t ih =>
      obtain ⟨fuel, rfl⟩ : ∃ k, fuel = k + 1 := ⟨fuel - 1, by omega⟩
      have hpeek : c.peek = some y := Cursor.peek_of_rest hrest
      rw [plainGap, hpeek]
      by_cases hfeed : y = '\n'
      · obtain rfl := hfeed
        have hskip : c.skipBreak = ⟨t, c.index + 1, c.line + 1, 0⟩ := Cursor.skipBreak_of_rest hrest
        have htake : f.take c = ({ f with otherBreaks := c.breakText.reverse ++ f.otherBreaks },
            ⟨t, c.index + 1, c.line + 1, 0⟩) := by
          rw [Folding.take, hpeek, hf, hskip]
          rfl
        have htab : (f.broken && decide (c.column < 1) && '\n' == '\t') = false := by
          rw [Bool.and_eq_false_iff]
          exact Or.inr rfl
        dsimp only
        rw [if_pos (by decide), htab, htake]
        exact ih hf ht.of_feed rfl rfl (Nat.lt_of_succ_lt_succ hfuel)
      · have hafter : afterFeeds (y :: t) = y :: t :=
          List.dropWhile_cons_of_neg (by rwa [beq_iff_eq])
        have hgap : (isBlank y || isBreak y) = false := ht y (by rw [hafter]; rfl)
        refine ⟨f, c, ?_, rfl, hf, hrest.trans hafter.symm, hcolumn⟩
        dsimp only
        rw [hgap]
        rfl

/-- The line end after a text. -/
theorem plainGap_lineEnd (ht : LineTail t) (hrest : c.rest = '\n' :: t)
    (hfuel : t.length + 1 < fuel) :
    ∃ g c', plainGap 1 { text := a } fuel c = some (g, c') ∧ g.text = a ∧ g.broken = true ∧
      c'.rest = afterFeeds t ∧ c'.column = 0 := by
  obtain ⟨fuel, rfl⟩ : ∃ k, fuel = k + 1 := ⟨fuel - 1, by omega⟩
  have hpeek : c.peek = some '\n' := Cursor.peek_of_rest hrest
  have hskip : c.skipBreak = ⟨t, c.index + 1, c.line + 1, 0⟩ := Cursor.skipBreak_of_rest hrest
  have htake : ({ text := a } : Folding).take c =
      ({ text := a, broken := true, firstBreak := c.breakText.reverse },
        ⟨t, c.index + 1, c.line + 1, 0⟩) := by
    rw [Folding.take, hpeek, hskip]
    rfl
  rw [plainGap, hpeek]
  dsimp only
  rw [if_pos (by decide), if_neg (by simp), htake]
  exact plainGap_feeds rfl ht rfl rfl (by omega)

/-- One more blank of a gap within a line. -/
theorem Folding.take_blank (hpeek : c.peek = some ' ') :
    ({ text := a, blanks := b } : Folding).take c =
      ({ text := a, blanks := ' ' :: b }, c.skip) := by
  rw [Folding.take, hpeek]
  rfl

/-- Blanks between words. -/
theorem plainGap_blanks {n : Nat} (hrest : c.rest = List.replicate n ' ' ++ x :: u)
    (hx : (isBlank x || isBreak x) = false) (hfuel : n < fuel) :
    ∃ c', plainGap 1 { text := a, blanks := b } fuel c =
        some ({ text := a, blanks := List.replicate n ' ' ++ b }, c') ∧
      c'.rest = x :: u ∧ c.column ≤ c'.column := by
  induction n generalizing c b fuel with
  | zero =>
      obtain ⟨fuel, rfl⟩ : ∃ k, fuel = k + 1 := ⟨fuel - 1, by omega⟩
      refine ⟨c, ?_, hrest, Nat.le_refl _⟩
      rw [plainGap, Cursor.peek, hrest]
      show (if (isBlank x || isBreak x) = true then _ else _) = _
      rw [hx]
      rfl
  | succ n ih =>
      obtain ⟨fuel, rfl⟩ : ∃ k, fuel = k + 1 := ⟨fuel - 1, by omega⟩
      have hpeek : c.peek = some ' ' := Cursor.peek_of_rest hrest
      have hskip :
          c.skip = ⟨List.replicate n ' ' ++ x :: u, c.index + 1, c.line, c.column + 1⟩ :=
        Cursor.skip_of_rest hrest
      rw [plainGap, hpeek]
      dsimp only
      rw [if_pos (by decide), if_neg (by simp), Folding.take_blank hpeek]
      have hfuel' : n < fuel := Nat.lt_of_succ_lt_succ hfuel
      obtain ⟨c', hread, hrest', hcolumn⟩ := ih (c := c.skip) (b := ' ' :: b) (by rw [hskip]) hfuel'
      refine ⟨c', ?_, hrest', ?_⟩
      · rw [hread, List.replicate_succ', List.append_assoc]
        rfl
      · rw [hskip] at hcolumn
        exact Nat.le_of_succ_le hcolumn

/-! ## Words -/

theorem isGap_of_unplain {cs : List Char} (h : unplain before x cs = false) (hx : x ≠ ' ') :
    (isBlank x || isBreak x) = false := by
  simp only [unplain, Bool.or_eq_false_iff, Bool.not_eq_false'] at h
  obtain ⟨⟨⟨⟨-, hprintable⟩, hbreak⟩, -⟩, -⟩ := h
  have htab : x ≠ '\t' := by
    rintro rfl
    exact absurd hprintable (by decide)
  simp only [hbreak, isBlank, beq_eq_false_iff_ne.mpr hx, beq_eq_false_iff_ne.mpr htab]
  rfl

/-- A colon is not followed by a blank or the end. -/
theorem colon_of_unplain {cs : List Char} (h : unplain before x cs = false) (t : List Char) :
    (x == ':' && isBlankOrEnd (cs ++ '\n' :: t).head?) = false := by
  by_cases hx : x = ':'
  · obtain rfl := hx
    simp only [unplain, Bool.or_eq_false_iff] at h
    obtain ⟨⟨⟨⟨hindicator, -⟩, -⟩, -⟩, -⟩ := h
    have hend : isBlankOrEnd cs.head? = false := by
      rw [Bool.eq_false_iff]
      intro hend
      rw [isIndicator, hend] at hindicator
      split at hindicator
      · exact absurd hindicator (by decide)
      · exact absurd hindicator (by simp)
    cases cs with
    | nil => exact absurd hend (by decide)
    | cons y cs => exact hend
  · rw [beq_eq_false_iff_ne.mpr hx]
    rfl

theorem plainRun_succ {cs : List Char} (h : unplain before x cs = false) (hx : x ≠ ' ')
    (hrest : c.rest = x :: (cs ++ '\n' :: t)) :
    plainRun false { text := a, blanks := b } (fuel + 1) c =
      plainRun false { text := x :: (b ++ a) } fuel
        ⟨cs ++ '\n' :: t, c.index + 1, c.line, c.column + 1⟩ := by
  have hpeek : c.peek = some x := Cursor.peek_of_rest hrest
  have hskip : c.skip = ⟨cs ++ '\n' :: t, c.index + 1, c.line, c.column + 1⟩ :=
    Cursor.skip_of_rest hrest
  have hnext : c.peekAt 1 = (cs ++ '\n' :: t).head? := Cursor.peekAt_one_of_rest hrest
  rw [plainRun, hpeek, hnext, hskip]
  dsimp only
  rw [isGap_of_unplain h hx, colon_of_unplain h t]
  rfl

theorem plainRun_word (havoid : Avoids unplain before (x :: w ++ v)) (hw : ∀ y ∈ x :: w, y ≠ ' ')
    (hv : v = [] ∨ ∃ v', v = ' ' :: v') (hrest : c.rest = x :: (w ++ v ++ '\n' :: t))
    (hfuel : w.length + 1 < fuel) :
    ∃ c', plainRun false { text := a, blanks := b } fuel c =
        some ({ text := (x :: w).reverse ++ (b ++ a) }, c') ∧
      c'.rest = v ++ '\n' :: t ∧ c.column ≤ c'.column := by
  induction w generalizing x c a b before fuel with
  | nil =>
      obtain ⟨fuel, rfl⟩ : ∃ k, fuel = k + 2 := ⟨fuel - 2, by omega⟩
      rw [plainRun_succ havoid.1 (hw x (List.mem_cons_self ..)) hrest]
      refine ⟨⟨v ++ '\n' :: t, c.index + 1, c.line, c.column + 1⟩, ?_, rfl, Nat.le_succ _⟩
      rcases hv with rfl | ⟨v', rfl⟩ <;> rfl
  | cons y w ih =>
      obtain ⟨fuel, rfl⟩ : ∃ k, fuel = k + 1 := ⟨fuel - 1, by omega⟩
      rw [plainRun_succ havoid.1 (hw x (List.mem_cons_self ..)) hrest]
      obtain ⟨c', hread, hrest', hcolumn⟩ := ih (c := ⟨y :: (w ++ v ++ '\n' :: t), c.index + 1,
        c.line, c.column + 1⟩) (a := x :: (b ++ a)) (b := []) havoid.2
        (fun z hz => hw z (List.mem_cons_of_mem _ hz)) rfl (Nat.lt_of_succ_lt_succ hfuel)
      refine ⟨c', hread.trans ?_, hrest', Nat.le_of_succ_le hcolumn⟩
      rw [show (x :: y :: w).reverse = (y :: w).reverse ++ [x] from List.reverse_cons,
        List.append_assoc _ [x]]
      rfl

/-! ## The whole text -/

theorem Avoids.of_append (h : Avoids bad before (u ++ v)) (hu : u ≠ []) :
    Avoids bad u.getLast? v := by
  induction u generalizing before with
  | nil => exact absurd rfl hu
  | cons y u ih =>
      cases u with
      | nil => exact h.2
      | cons z u => exact ih h.2 (by simp)

theorem getLast?_of_unplain (h : Avoids unplain before text) : text.getLast? ≠ some ' ' := by
  induction text generalizing before with
  | nil => simp
  | cons y text ih =>
      cases text with
      | nil =>
          intro hlast
          obtain rfl : y = ' ' := Option.some.inj hlast
          have hend := h.1
          simp only [unplain, Bool.or_eq_false_iff] at hend
          exact absurd hend.2 (by decide)
      | cons z text => exact ih h.2

/-- A hash that follows a blank, or stands at the start, would begin a comment. -/
theorem hash_of_unplain {cs : List Char} (h : unplain before x cs = false)
    (hbefore : before.all (fun b => isBlank b || isBreak b) = true) : x ≠ '#' := by
  rintro rfl
  simp only [unplain, Bool.or_eq_false_iff] at h
  obtain ⟨⟨⟨⟨hindicator, -⟩, -⟩, -⟩, -⟩ := h
  rw [hbefore, isIndicator] at hindicator
  split at hindicator
  · rw [Bool.or_eq_false_iff] at hindicator
    exact absurd hindicator.1 (by decide)
  · exact absurd hindicator (by simp)

theorem atDocumentMarker_of_column (h : 0 < c.column) : c.atDocumentMarker = false := by
  have hcolumn : (c.column == 0) = false := beq_eq_false_iff_ne.mpr (Nat.ne_of_gt h)
  rw [Cursor.atDocumentMarker, Cursor.atMarker, Cursor.atMarker, hcolumn]
  rfl

theorem exists_blanks (text : List Char) :
    ∃ n u, text = List.replicate n ' ' ++ u ∧ u.head? ≠ some ' ' := by
  induction text with
  | nil => exact ⟨0, [], rfl, by simp⟩
  | cons y text ih =>
      by_cases hy : y = ' '
      · obtain ⟨n, u, rfl, hu⟩ := ih
        exact ⟨n + 1, u, by rw [hy]; rfl, hu⟩
      · exact ⟨0, y :: text, rfl, fun h => hy (Option.some.inj h)⟩

/-- A text is a word, and behind blanks another text. -/
theorem exists_word (text : List Char) : ∃ w v, text = w ++ v ∧ (∀ y ∈ w, y ≠ ' ') ∧
    (v = [] ∨ ∃ n u, v = List.replicate (n + 1) ' ' ++ u ∧ u.head? ≠ some ' ') := by
  induction text with
  | nil => exact ⟨[], [], rfl, by simp, Or.inl rfl⟩
  | cons y text ih =>
      by_cases hy : y = ' '
      · obtain ⟨n, u, rfl, hu⟩ := exists_blanks text
        exact ⟨[], _, rfl, by simp, Or.inr ⟨n, u, by rw [hy]; rfl, hu⟩⟩
      · obtain ⟨w, v, rfl, hw, hv⟩ := ih
        refine ⟨y :: w, v, rfl, fun z hz => ?_, hv⟩
        rcases List.mem_cons.mp hz with rfl | hz
        · exact hy
        · exact hw z hz

/-- The first character of a word does not end the scalar. -/
theorem not_stops_of_unplain {cs : List Char} (h : unplain before x cs = false)
    (hbefore : before.all (fun b => isBlank b || isBreak b) = true) (hpeek : c.peek = some x)
    (hcolumn : 0 < c.column) : (c.atDocumentMarker || c.peek == some '#') = false := by
  rw [atDocumentMarker_of_column hcolumn, hpeek, Bool.false_or, beq_eq_false_iff_ne, Ne,
    Option.some.injEq]
  exact hash_of_unplain h hbefore

/-- Blanks within a text have a next word behind them. -/
theorem Avoids.behindBlanks {n : Nat}
    (h : Avoids unplain before (w ++ (List.replicate (n + 1) ' ' ++ u)))
    (hu : u.head? ≠ some ' ') :
    ∃ y u', u = y :: u' ∧ y ≠ ' ' ∧ Avoids unplain (some ' ') (y :: u') := by
  rw [← List.append_assoc] at h
  have hblank : (w ++ List.replicate (n + 1) ' ').getLast? = some ' ' := by
    rw [List.replicate_succ', ← List.append_assoc, List.getLast?_concat]
  cases u with
  | nil =>
      have hlast := getLast?_of_unplain h
      rw [List.append_nil] at hlast
      exact absurd hblank hlast
  | cons y u' =>
      refine ⟨y, u', rfl, fun hy => hu (congrArg some hy), ?_⟩
      rw [← hblank]
      exact h.of_append (by simp)

/-- One round of the reader: a word and the gap behind it. -/
theorem plainLoop_succ {f g g' : Folding} {c₁ c₂ : Cursor}
    (hstart : (c.atDocumentMarker || c.peek == some '#') = false)
    (hrun : plainRun false f (c.rest.length + 1) c = some (g, c₁))
    (hpeek : (c₁.peek.any fun x => isBlank x || isBreak x) = true)
    (hgap : plainGap 1 g (c₁.rest.length + 1) c₁ = some (g', c₂)) :
    plainLoop false 1 f (fuel + 1) c =
      if c₂.column = 0 then some (String.ofList g'.text.reverse, g'.broken, c₂)
      else plainLoop false 1 g' fuel c₂ := by
  rw [plainLoop]
  dsimp only
  rw [hstart, hrun]
  simp only [Bool.false_eq_true, if_false, Option.bind_eq_bind, Option.bind_some, hpeek,
    Bool.not_true, hgap, Bool.not_false, Bool.true_and, decide_eq_true_eq, Nat.lt_one_iff]

/-- A text that does not begin with a blank, behind blanks and text before. -/
theorem plainLoop_written (havoid : Avoids unplain before (x :: text))
    (hbefore : before.all (fun b => isBlank b || isBreak b) = true) (hx : x ≠ ' ')
    (hrest : c.rest = x :: text ++ '\n' :: t) (ht : LineTail t) (hcolumn : 0 < c.column)
    (hfuel : text.length < fuel) :
    ∃ c', plainLoop false 1 { text := a, blanks := b } fuel c =
        some (String.ofList ((b ++ a).reverse ++ x :: text), true, c') ∧
      c'.rest = afterFeeds t ∧ c'.column = 0 := by
  -- one unit of fuel reads one word and the blanks behind it
  induction fuel generalizing x text c a b before with
  | zero => exact absurd hfuel (Nat.not_lt_zero _)
  | succ fuel ih =>
      have hstart := not_stops_of_unplain havoid.1 hbefore (Cursor.peek_of_rest hrest) hcolumn
      obtain ⟨w, v, rfl, hw, hv⟩ := exists_word text
      have hword : ∀ y ∈ x :: w, y ≠ ' ' := by
        intro y hy
        rcases List.mem_cons.mp hy with rfl | hy
        · exact hx
        · exact hw y hy
      have hblank : v = [] ∨ ∃ v', v = ' ' :: v' := by
        rcases hv with rfl | ⟨n, u, rfl, -⟩
        · exact Or.inl rfl
        · exact Or.inr ⟨List.replicate n ' ' ++ u, rfl⟩
      have hrunFuel : w.length + 1 < c.rest.length + 1 := by
        rw [hrest]
        simp only [List.cons_append, List.length_cons, List.length_append]
        omega
      obtain ⟨c₁, hrun, hrest₁, hcolumn₁⟩ := plainRun_word (t := t) (c := c) (a := a) (b := b)
        havoid hword hblank hrest hrunFuel
      have hpeek₁ : (c₁.peek.any fun x => isBlank x || isBreak x) = true := by
        rw [Cursor.peek, hrest₁]
        rcases hblank with rfl | ⟨v', rfl⟩ <;> rfl
      rcases hv with rfl | ⟨n, u, rfl, hu⟩
      · -- the last word: the line end behind it puts the reader into column 0, which is a stop
        have hgapFuel : t.length + 1 < c₁.rest.length + 1 := by
          rw [hrest₁]
          exact Nat.lt_succ_self _
        obtain ⟨g, c₂, hgap, htext, hbroken, hrest₂, hcolumn₂⟩ :=
          plainGap_lineEnd (a := (x :: w).reverse ++ (b ++ a)) ht hrest₁ hgapFuel
        refine ⟨c₂, ?_, hrest₂, hcolumn₂⟩
        rw [plainLoop_succ hstart hrun hpeek₁ hgap, if_pos hcolumn₂, htext, hbroken,
          List.reverse_append, List.reverse_reverse, List.append_nil]
      · -- blanks and a further word: the reader stays on the line and goes on
        obtain ⟨y, u', rfl, hy, havoid'⟩ := Avoids.behindBlanks (w := x :: w) havoid hu
        have hgapFuel : n + 1 < c₁.rest.length + 1 := by
          rw [hrest₁]
          simp only [List.length_append, List.length_replicate]
          omega
        obtain ⟨c₂, hgap, hrest₂, hcolumn₂⟩ := plainGap_blanks (n := n + 1) (x := y)
          (u := u' ++ '\n' :: t) (a := (x :: w).reverse ++ (b ++ a)) (b := [])
          (by rw [hrest₁, List.append_assoc]; rfl) (isGap_of_unplain havoid'.1 hy) hgapFuel
        have hpositive : 0 < c₂.column :=
          Nat.lt_of_lt_of_le hcolumn (Nat.le_trans hcolumn₁ hcolumn₂)
        have hfuel' : u'.length < fuel := by
          simp only [List.length_append, List.length_replicate, List.length_cons] at hfuel
          omega
        obtain ⟨c', hread, hrest', hcolumn'⟩ := ih (c := c₂)
          (a := (x :: w).reverse ++ (b ++ a)) (b := List.replicate (n + 1) ' ' ++ []) havoid' rfl hy
          hrest₂ hpositive hfuel'
        refine ⟨c', ?_, hrest', hcolumn'⟩
        rw [plainLoop_succ hstart hrun hpeek₁ hgap, if_neg (Nat.ne_of_gt hpositive), hread]
        simp only [List.append_nil, List.reverse_append, List.reverse_replicate,
          List.reverse_reverse, List.cons_append, List.append_assoc]

/-- **A text without quotes** is read back, up to the next line. -/
theorem plain?_written (hne : text ≠ []) (havoid : Avoids unplain none text)
    (hrest : c.rest = text ++ '\n' :: t) (ht : LineTail t) (hcolumn : 0 < c.column) :
    ∃ c', plain? false 1 c = some (String.ofList text, true, c') ∧ c'.rest = afterFeeds t ∧
      c'.column = 0 := by
  cases text with
  | nil => exact absurd rfl hne
  | cons x text =>
      have hx : x ≠ ' ' := by
        rintro rfl
        have hend := havoid.1
        simp only [unplain, Bool.or_eq_false_iff] at hend
        exact absurd hend.1.2 (by decide)
      refine plainLoop_written havoid rfl hx hrest ht hcolumn ?_
      rw [hrest, List.length_append, List.length_cons]
      omega

end SourceEdit.Yaml
