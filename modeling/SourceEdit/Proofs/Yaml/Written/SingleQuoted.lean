import SourceEdit.Proofs.Yaml.Written.Quoted

/-!
# Texts in single quotes read back

Quotes are written twice, and the line behind a wide separator is indented. Blanks and separators
never meet, so each gap is of one kind and is kept as it is.
-/

namespace SourceEdit.Yaml

variable {c : Cursor} {a u v w z text : List Char} {before : Option Char} {x y : Char} {fuel : Nat}

/-! ## Characters -/

def doubled (y : Char) : List Char := if y == '\'' then ['\'', '\''] else [y]

theorem readsChar_doubled (hy : (isBlank y || isBreak y) = false) :
    ReadsChar true y (doubled y) := by
  by_cases hquote : y = '\''
  · obtain rfl := hquote
    refine ⟨by decide, fun a z fuel c hrest => ?_⟩
    refine ⟨c.skipMany 2, ?_, ?_, ?_⟩
    · rw [quotedRun, Cursor.peek, Cursor.peekAt, hrest]
      rfl
    · rw [Cursor.skipMany_eq (by rw [hrest]; simp [doubled]), hrest]
      rfl
    · rw [Cursor.skipMany_eq (by rw [hrest]; simp [doubled])]
      exact Nat.le_add_right _ _
  · have hself : doubled y = [y] := if_neg (by rwa [beq_iff_eq])
    rw [hself]
    refine ⟨by simp, fun a z fuel c hrest => ?_⟩
    have hskip : c.skip = ⟨z, c.index + 1, c.line, c.column + 1⟩ := Cursor.skip_of_rest hrest
    refine ⟨c.skip, ?_, by rw [hskip], by rw [hskip]; exact Nat.le_succ _⟩
    rw [quotedRun, Cursor.peek, hrest]
    show (if (isBlank y || isBreak y) = true then _ else _) = _
    rw [hy, if_neg Bool.false_ne_true, if_pos rfl, if_neg (by rwa [beq_iff_eq])]
    rfl

/-! ## Gaps in a text -/

theorem isBlank_iff_of_unquotable {cs : List Char} (h : unquotable before x cs = false) :
    isBlank x = true ↔ x = ' ' := by
  simp only [unquotable, Bool.or_eq_false_iff, Bool.not_eq_false'] at h
  have htab : x ≠ '\t' := by
    rintro rfl
    exact absurd h.1.1 (by decide)
  rw [isBlank, Bool.or_eq_true, beq_iff_eq, beq_iff_eq]
  exact or_iff_left htab

theorem isWide_of_unquotable {cs : List Char} (h : unquotable before x cs = false) (hx : x ≠ '\n')
    (hbreak : isBreak x = true) : IsWide x := by
  simp only [unquotable, Bool.or_eq_false_iff, Bool.not_eq_false'] at h
  simp only [isBreak, Bool.or_eq_true, beq_iff_eq] at hbreak
  obtain ⟨⟨hprintable, -⟩, -⟩ := h
  rcases hbreak with (((rfl | rfl) | rfl) | rfl) | rfl
  · exact absurd rfl hx
  · exact absurd hprintable (by decide)
  · exact absurd hprintable (by decide)
  · exact Or.inl rfl
  · exact Or.inr rfl

def NoGap (u : List Char) : Prop := ∀ x, u.head? = some x → (isBlank x || isBreak x) = false

def IsGap (gap : List Char) : Prop :=
  (∃ n, gap = List.replicate (n + 1) ' ') ∨ ∃ x bs, gap = x :: bs ∧ ∀ y ∈ x :: bs, IsWide y

theorem exists_wides (text : List Char) : ∃ bs u, text = bs ++ u ∧ (∀ y ∈ bs, IsWide y) ∧
    ∀ x, u.head? = some x → ¬ IsWide x := by
  induction text with
  | nil => exact ⟨[], [], rfl, by simp, by simp⟩
  | cons y text ih =>
      by_cases hy : IsWide y
      · obtain ⟨bs, u, rfl, hbs, hu⟩ := ih
        refine ⟨y :: bs, u, rfl, fun z hz => ?_, hu⟩
        rcases List.mem_cons.mp hz with rfl | hz
        · exact hy
        · exact hbs z hz
      · refine ⟨[], y :: text, rfl, by simp, fun x hx => ?_⟩
        obtain rfl := Option.some.inj hx
        exact hy

theorem noGap_behind_blanks {n : Nat}
    (havoid : Avoids unquotable before (List.replicate (n + 1) ' ' ++ u))
    (hu : u.head? ≠ some ' ') : NoGap u := by
  intro y hy
  obtain ⟨u', rfl⟩ := List.head?_eq_some_iff.mp hy
  have hlast : (List.replicate (n + 1) ' ').getLast? = some ' ' := by
    rw [List.replicate_succ', List.getLast?_concat]
  have hnext := (havoid.of_append (by simp)).1
  have hblank := isBlank_iff_of_unquotable hnext
  rw [hlast] at hnext
  simp only [unquotable, Bool.or_eq_false_iff, beq_self_eq_true, Bool.and_true] at hnext
  rw [hnext.2, Bool.or_false, Bool.eq_false_iff, Ne, hblank]
  exact fun h => hu (congrArg some h)

theorem noGap_behind_wides (gap : List Char) (havoid : Avoids unquotable before (gap ++ u))
    (hfeed : '\n' ∉ u) (hne : gap ≠ []) (hgap : ∀ y ∈ gap, IsWide y)
    (hu : ∀ x, u.head? = some x → ¬ IsWide x) : NoGap u := by
  intro y hy
  obtain ⟨u', rfl⟩ := List.head?_eq_some_iff.mp hy
  obtain ⟨z, hz⟩ : ∃ z, gap.getLast? = some z := ⟨_, List.getLast?_eq_some_getLast hne⟩
  have hnext := (havoid.of_append hne).1
  have hblank : isBlank y = false := by
    rw [Bool.eq_false_iff, Ne, isBlank_iff_of_unquotable hnext]
    rintro rfl
    rw [hz] at hnext
    simp only [unquotable, Bool.or_eq_false_iff, Option.any_some,
      (hgap z (List.mem_of_getLast? hz)).isBreak] at hnext
    exact absurd hnext.1.2 (by decide)
  have hbreak : isBreak y = false := by
    rw [Bool.eq_false_iff]
    intro hbreak
    refine hu y rfl (isWide_of_unquotable hnext ?_ hbreak)
    rintro rfl
    exact hfeed (List.mem_cons_self ..)
  rw [hblank, hbreak]
  rfl

/-- A gap ends where something else begins. -/
theorem exists_gap (havoid : Avoids unquotable before (x :: text)) (hfeed : '\n' ∉ x :: text)
    (hx : (isBlank x || isBreak x) = true) :
    ∃ gap u, x :: text = gap ++ u ∧ IsGap gap ∧ NoGap u := by
  rw [Bool.or_eq_true, isBlank_iff_of_unquotable havoid.1] at hx
  rcases hx with rfl | hbreak
  · obtain ⟨n, u, rfl, hu⟩ := exists_blanks text
    exact ⟨List.replicate (n + 1) ' ', u, rfl, Or.inl ⟨n, rfl⟩, noGap_behind_blanks havoid hu⟩
  · have hwide := isWide_of_unquotable havoid.1 (fun h => hfeed (h ▸ List.mem_cons_self ..)) hbreak
    obtain ⟨bs, u, rfl, hbs, hu⟩ := exists_wides text
    have hgap : ∀ y ∈ x :: bs, IsWide y := by
      intro y hy
      rcases List.mem_cons.mp hy with rfl | hy
      · exact hwide
      · exact hbs y hy
    have hnone : '\n' ∉ u := fun hmem => hfeed (List.mem_append_right (x :: bs) hmem)
    exact ⟨x :: bs, u, rfl, Or.inr ⟨x, bs, rfl, hgap⟩,
      noGap_behind_wides (x :: bs) havoid hnone (by simp) hgap hu⟩

theorem exists_stretch (havoid : Avoids unquotable before text) (hfeed : '\n' ∉ text) :
    ∃ w v, text = w ++ v ∧ (∀ y ∈ w, (isBlank y || isBreak y) = false) ∧
      (v = [] ∨ ∃ gap u, v = gap ++ u ∧ IsGap gap ∧ NoGap u) := by
  induction text generalizing before with
  | nil => exact ⟨[], [], rfl, by simp, Or.inl rfl⟩
  | cons y text ih =>
      cases hy : (isBlank y || isBreak y) with
      | true =>
          obtain ⟨gap, u, hsplit, hgap, hu⟩ := exists_gap havoid hfeed hy
          exact ⟨[], y :: text, rfl, by simp, Or.inr ⟨gap, u, hsplit, hgap, hu⟩⟩
      | false =>
          obtain ⟨w, v, rfl, hw, hv⟩ := ih havoid.2 fun h => hfeed (List.mem_cons_of_mem _ h)
          refine ⟨y :: w, v, rfl, fun z hz => ?_, hv⟩
          rcases List.mem_cons.mp hz with rfl | hz
          · exact hy
          · exact hw z hz

/-! ## The inside of the quotes -/

theorem singleQuotedBody_stretch (hw : ∀ y ∈ w, isBreak y = false) (v : List Char) :
    singleQuotedBody false (w ++ v) = w.flatMap doubled ++ singleQuotedBody false v := by
  induction w with
  | nil => rfl
  | cons y w ih =>
      have hrest := ih fun z hz => hw z (List.mem_cons_of_mem _ hz)
      rw [List.cons_append, singleQuotedBody, hw y (List.mem_cons_self ..), if_neg (by simp),
        List.flatMap_cons, List.append_assoc (doubled y), ← hrest]
      rfl

theorem singleQuotedBody_wides {bs : List Char} (hbs : ∀ y ∈ bs, IsWide y) (after : Bool)
    (hne : bs ≠ []) (u : List Char) :
    singleQuotedBody after (bs ++ u) = bs ++ singleQuotedBody true u := by
  induction bs generalizing after with
  | nil => exact absurd rfl hne
  | cons y bs ih =>
      rw [List.cons_append, singleQuotedBody, if_pos (hbs y (List.mem_cons_self ..)).isBreak]
      cases bs with
      | nil => rfl
      | cons z bs =>
          rw [ih (fun z hz => hbs z (List.mem_cons_of_mem _ hz)) true (by simp)]
          rfl

theorem singleQuotedBody_indented (hu : NoGap u) :
    singleQuotedBody true u = nodeIndent ++ singleQuotedBody false u := by
  cases u with
  | nil => rfl
  | cons y u =>
      have hy := hu y rfl
      rw [Bool.or_eq_false_iff] at hy
      have hblank : (y == ' ') = false := by
        rw [isBlank, Bool.or_eq_false_iff] at hy
        exact hy.1.1
      simp only [singleQuotedBody, hy.2, hblank, bne, Bool.false_eq_true, if_false, Bool.not_false,
        Bool.and_true, Bool.true_and, Bool.false_and, if_true, List.nil_append, List.append_assoc]

theorem singleQuotedBody_gap {gap : List Char} (hgap : IsGap gap) (hu : NoGap u) :
    ∃ src, ReadsGap gap src ∧
      singleQuotedBody false (gap ++ u) = src ++ singleQuotedBody false u := by
  rcases hgap with ⟨n, rfl⟩ | ⟨x, bs, rfl, hwide⟩
  · refine ⟨_, readsGap_blanks n, ?_⟩
    induction n + 1 with
    | zero => rfl
    | succ n ih => exact congrArg (' ' :: ·) ih
  · refine ⟨_, readsGap_wide hwide, ?_⟩
    rw [singleQuotedBody_wides hwide false (by simp), singleQuotedBody_indented hu,
      List.append_assoc]

/-- What follows a gap is no gap. -/
theorem exists_cons_of_noGap (hu : NoGap u) (z : List Char) :
    ∃ x z', singleQuotedBody false u ++ '\'' :: z = x :: z' ∧ (isBlank x || isBreak x) = false := by
  cases u with
  | nil => exact ⟨'\'', z, rfl, by decide⟩
  | cons y u =>
      have hy := hu y rfl
      have hbreak : ¬ isBreak y = true := by
        rw [Bool.or_eq_false_iff] at hy
        rw [hy.2]
        exact Bool.false_ne_true
      rw [singleQuotedBody, if_neg hbreak]
      by_cases hquote : y = '\''
      · rw [hquote]
        exact ⟨'\'', _, rfl, by decide⟩
      · have hself : (if y == '\'' then ['\'', '\''] else [y]) = [y] :=
          if_neg (by rwa [beq_iff_eq])
        rw [hself]
        exact ⟨y, _, rfl, hy⟩

theorem quotedLoop_single (havoid : Avoids unquotable before text) (hfeed : '\n' ∉ text)
    (hrest : c.rest = singleQuotedBody false text ++ '\'' :: z) (hz : z.head? ≠ some '\'')
    (hcolumn : 0 < c.column) (hfuel : text.length < fuel) :
    ∃ c', quotedLoop true { text := a } fuel c = some (String.ofList (a.reverse ++ text), c') ∧
      c'.rest = z := by
  induction fuel generalizing text c a before with
  | zero => exact absurd hfuel (Nat.not_lt_zero _)
  | succ fuel ih =>
      obtain ⟨w, v, rfl, hw, hv⟩ := exists_stretch havoid hfeed
      have henc : ∀ y ∈ w, ReadsChar true y (doubled y) := fun y hy => readsChar_doubled (hw y hy)
      have hbreaks : ∀ y ∈ w, isBreak y = false := by
        intro y hy
        have hgap := hw y hy
        rw [Bool.or_eq_false_iff] at hgap
        exact hgap.2
      rw [singleQuotedBody_stretch hbreaks] at hrest
      rcases hv with rfl | ⟨gap, u, rfl, hgap, hu⟩
      · obtain ⟨c', hread, hrest'⟩ := quotedLoop_end (a := a) fuel henc hz
          (by rw [hrest, List.append_assoc]; rfl) hcolumn
        exact ⟨c', by rw [hread, List.append_nil], hrest'⟩
      · obtain ⟨src, hreads, hsrc⟩ := singleQuotedBody_gap hgap hu
        rw [hsrc, List.append_assoc, List.append_assoc] at hrest
        obtain ⟨c₁, hround, hrest₁, hcolumn₁⟩ := quotedLoop_round (a := a) fuel henc
          hreads (exists_cons_of_noGap hu z) hrest hcolumn
        have hne : gap ≠ [] := by
          rcases hgap with ⟨n, rfl⟩ | ⟨x, bs, rfl, -⟩ <;> simp
        have hpos := List.length_pos_iff.mpr hne
        have hsplit : Avoids unquotable before ((w ++ gap) ++ u) := by
          rw [List.append_assoc]
          exact havoid
        have hfuel' : u.length < fuel := by
          simp only [List.length_append] at hfuel
          omega
        obtain ⟨c', hread, hrest'⟩ := ih (a := (w ++ gap).reverse ++ a)
          (hsplit.of_append (by simp [hne]))
          (fun h => hfeed (List.mem_append_right _ (List.mem_append_right _ h))) hrest₁ hcolumn₁
          hfuel'
        refine ⟨c', ?_, hrest'⟩
        rw [hround, hread]
        simp only [List.reverse_append, List.reverse_reverse, List.append_assoc]

theorem length_le_singleQuotedBody (text : List Char) (after : Bool) :
    text.length ≤ (singleQuotedBody after text).length := by
  induction text generalizing after with
  | nil => exact Nat.zero_le _
  | cons y text ih =>
      rw [singleQuotedBody]
      split
      · exact Nat.succ_le_succ (ih true)
      · have hrest := ih (after && y == ' ')
        have hhere : 1 ≤ (if y == '\'' then ['\'', '\''] else [y]).length := by
          split
          · decide
          · exact Nat.le_refl 1
        simp only [List.length_append, List.length_cons]
        omega

/-- **A text in single quotes** is read back. -/
theorem quoted?_single (havoid : Avoids unquotable none text) (hfeed : '\n' ∉ text)
    (hrest : c.rest = '\'' :: singleQuotedBody false text ++ '\'' :: z)
    (hz : z.head? ≠ some '\'') :
    ∃ c', quoted? true c = some (String.ofList text, c') ∧ c'.rest = z := by
  have hskip : c.skip = ⟨singleQuotedBody false text ++ '\'' :: z, c.index + 1, c.line,
      c.column + 1⟩ := Cursor.skip_of_rest hrest
  unfold quoted?
  rw [hskip]
  refine quotedLoop_single havoid hfeed rfl hz (Nat.succ_pos _) ?_
  have hle := length_le_singleQuotedBody text false
  rw [hrest, List.cons_append, List.length_cons, List.length_append]
  omega

end SourceEdit.Yaml
