import SourceEdit.Proofs.Yaml.Ending.Cursor
import SourceEdit.Proofs.Yaml.Marker.Block

/-!
# Block scalars at the end of a text

A block scalar may be open where the text ends. With the line of a marker behind, the line feed ends
its last line, or is an empty line behind that one. So the scalar is the same or has one line feed
more, and nothing else of the text is read differently.
-/

namespace SourceEdit.Yaml

open Cursor (Kept Meets marked length_marked skip_marked skipMany_marked peek_marked
  peek_marked_of_some peek_marked_beq rest_eq_nil_iff)
open Outcome (Follows Beside)

variable {c c' : Cursor} {indent deepest m n : Nat} {folded : Bool}

/-! ## The header -/

theorem chompingOf?_peek_marked (c : Cursor) :
    c.marked.peek.bind chompingOf? = c.peek.bind chompingOf? := by
  rw [peek_marked]
  cases c.peek <;> rfl

theorem headerDigit?_marked (b : BlockHeader) (c : Cursor) :
    Follows (Beside Kept) (headerDigit? b c) (headerDigit? b c.marked) := by
  unfold headerDigit?
  rw [peek_marked]
  cases hd : c.peek with
  | none => exact Follows.some ⟨rfl, rfl⟩
  | some d =>
      dsimp only [Option.getD_some]
      rw [skip_marked hd]
      refine Follows.ite (fun _ => ?_) fun _ => Follows.some ⟨rfl, rfl⟩
      exact Follows.ite (fun _ => Follows.none) fun _ => Follows.some ⟨rfl, rfl⟩

theorem blockHeader?_marked (c : Cursor) :
    Follows (Beside Kept) (blockHeader? c) (blockHeader? c.marked) := by
  have hskip : ∀ (c : Cursor) (k : Chomping), c.peek.bind chompingOf? = some k →
      c.marked.skip = c.skip.marked := by
    intro c k hk
    obtain ⟨x, hx, -⟩ := Option.bind_eq_some_iff.mp hk
    exact skip_marked hx
  rw [blockHeader?_eq, blockHeader?_eq, chompingOf?_peek_marked]
  cases hk : c.peek.bind chompingOf? with
  | some k =>
      dsimp only
      rw [hskip c k hk]
      exact headerDigit?_marked _ _
  | none =>
      refine Follows.bind (headerDigit?_marked {} c) ?_
      rintro ⟨b, c₁⟩ ⟨b', c₁'⟩ ⟨hb, hkept⟩
      obtain rfl : b = b' := hb
      obtain rfl : c₁' = c₁.marked := hkept
      dsimp only
      refine Follows.ite (fun _ => Follows.some ⟨rfl, rfl⟩) fun _ => ?_
      rw [chompingOf?_peek_marked]
      cases hk' : c₁.peek.bind chompingOf? with
      | none => exact Follows.some ⟨rfl, rfl⟩
      | some k => exact Follows.some ⟨rfl, hskip c₁ k hk'⟩

/-! ## Indentation and empty lines -/

theorem blockIndentation_marked (indent : Nat) (c : Cursor) :
    c.marked.skipMany (blockIndentation indent c.marked) =
      (c.skipMany (blockIndentation indent c)).marked := by
  have hsame : blockIndentation indent c.marked = blockIndentation indent c :=
    blockIndentation_lineEnd rfl
  have hle : blockIndentation indent c ≤ c.rest.length :=
    Nat.le_trans (Cursor.length_takeWhile_le _) (List.length_take_le' _ _)
  rw [hsame]
  exact skipMany_marked hle

theorem blockGap_of_end (h : c.rest = []) (breaks : List Char) (n : Nat) :
    blockGap indent deepest breaks (n + 1) c = some (breaks, max deepest c.column, c) := by
  have hzero : blockIndentation indent c = 0 := by
    rw [blockIndentation, h, List.take_nil]
    rfl
  rw [blockGap_succ, hzero, Cursor.skipMany]
  dsimp only
  rw [rest_eq_nil_iff.mp h, if_neg (by simp)]
  rfl

theorem blockGap_atMarker (h : c.AtMarker) (breaks : List Char) (n : Nat) :
    blockGap indent deepest breaks (n + 1) c = some (breaks, deepest, c) := by
  rw [blockGap_succ, blockIndentation_dash h.1, Cursor.skipMany]
  dsimp only
  rw [h.peek_eq, h.2, Nat.max_zero, if_neg (by simp)]
  rfl

/-- Where empty lines end: at the same character, or at the end of the text and the marker. There
the line feed may have been one line end more. -/
def MeetsBreaks (a b : List Char × Nat × Cursor) : Prop :=
  (a.2.2.rest ≠ [] ∧ b = (a.1, a.2.1, a.2.2.marked)) ∨
    (a.2.2.rest = [] ∧ b.2.2.AtMarker ∧ (b.1 = a.1 ∨ b.1 = '\n' :: a.1))

theorem blockGap_meets (indent deepest : Nat) (breaks : List Char) (hmeets : Meets c c')
    (hnm : n < m) :
    Follows MeetsBreaks (blockGap indent deepest breaks n c)
      (blockGap indent deepest breaks m c') := by
  induction n generalizing c c' deepest breaks m with
  | zero => exact Follows.none
  | succ n ih =>
      obtain ⟨m, rfl⟩ : ∃ k, m = k + 1 := ⟨m - 1, by omega⟩
      rcases hmeets with rfl | ⟨hend, hmarker⟩
      · rw [blockGap_succ, blockGap_succ, blockIndentation_marked]
        generalize c.skipMany (blockIndentation indent c) = c₁
        dsimp only
        rw [peek_marked_beq c₁ (by decide)]
        refine Follows.ite (fun _ => Follows.none) fun _ => ?_
        by_cases hend : c₁.rest = []
        · -- the line feed in front of the marker is an empty line
          obtain ⟨m, rfl⟩ : ∃ k, m = k + 1 := ⟨m - 1, by omega⟩
          have htext : c₁.marked.breakText = ['\n'] := by
            rw [Cursor.breakText, Cursor.marked_rest, hend]
            rfl
          have hmarker := Cursor.atMarker_of_end hend
          rw [rest_eq_nil_iff.mp hend, Cursor.peek_marked_of_end hend, htext,
            blockGap_atMarker hmarker]
          exact Follows.some (Or.inr ⟨hend, hmarker, Or.inr rfl⟩)
        · obtain ⟨x, hx⟩ := Option.ne_none_iff_exists'.mp (mt rest_eq_nil_iff.mpr hend)
          rw [peek_marked_of_some hx, Cursor.breakText_marked hx, hx]
          refine Follows.ite (fun _ => ?_) fun _ => Follows.some (Or.inl ⟨hend, rfl⟩)
          exact ih _ _ (Cursor.skipBreak_meets c₁) (by omega)
      · rw [blockGap_of_end hend, blockGap_atMarker hmarker]
        exact Follows.some (Or.inr ⟨hend, hmarker, Or.inl rfl⟩)

/-! ## Lines of text -/

/-- The line feed in front of the marker is the end of the last line, or an empty line behind it. -/
inductive OneMore (b : BlockText) : BlockText → Prop where
  | same : OneMore b b
  | lineEnd (hend : b.lineEnd = []) (hbreaks : b.breaks = []) :
      OneMore b { b with lineEnd := ['\n'] }
  | emptyLine : OneMore b { b with breaks := '\n' :: b.breaks }

def MeetsLines (a b : BlockText × Cursor) : Prop :=
  b = (a.1, a.2.marked) ∨ (a.2.rest = [] ∧ b.2.AtMarker ∧ OneMore a.1 b.1)

theorem blockLines_of_end (h : c.rest = []) (b : BlockText) (n : Nat) :
    blockLines folded indent b (n + 1) c = some (b, c) := by
  rw [blockLines, rest_eq_nil_iff.mp h, Option.isNone_none, Bool.or_true]
  rfl

/-- The marker stands further left than the lines of a block. -/
theorem blockLines_atMarker (h : c.AtMarker) (hindent : 0 < indent) (b : BlockText) (n : Nat) :
    blockLines folded indent b (n + 1) c = some (b, c) := by
  have hcolumn : (c.column != indent) = true := by
    rw [h.2, bne_iff_ne]
    exact Nat.ne_of_lt hindent
  rw [blockLines, hcolumn, Bool.true_or]
  rfl

theorem blockLines_marked {b : BlockText} (hindent : 0 < indent) (hne : c.rest ≠ [])
    (hnm : n ≤ m) :
    Follows MeetsLines (blockLines folded indent b n c)
      (blockLines folded indent b m c.marked) := by
  induction n generalizing c b m with
  | zero => exact Follows.none
  | succ n ih =>
      obtain ⟨m, rfl⟩ : ∃ k, m = k + 1 := ⟨m - 1, by omega⟩
      obtain ⟨x, hx⟩ := Option.ne_none_iff_exists'.mp (mt rest_eq_nil_iff.mpr hne)
      rw [blockLines, blockLines, peek_marked_of_some hx, hx]
      refine Follows.ite (fun _ => Follows.some (Or.inl rfl)) fun _ => ?_
      dsimp only
      rw [Cursor.spanText_marked c (by decide), Cursor.skipWhile_marked c (by decide)]
      generalize c.skipWhile (fun x => !isBreak x) = c₁
      have hends : ∀ (b b' : BlockText) (c₂ c₂' : Cursor), c₂.rest = [] → c₂'.AtMarker →
          OneMore b b' → Follows MeetsLines (blockLines folded indent b n c₂)
            (blockLines folded indent b' m c₂') := by
        intro b b' c₂ c₂' hend hmarker hmore
        cases n with
        | zero => exact Follows.none
        | succ n =>
            obtain ⟨m, rfl⟩ : ∃ k, m = k + 1 := ⟨m - 1, by omega⟩
            rw [blockLines_of_end hend, blockLines_atMarker hmarker hindent]
            exact Follows.some (Or.inr ⟨hend, hmarker, hmore⟩)
      by_cases hend : c₁.rest = []
      · -- the last line has not ended: the line feed ends it
        have htext : c₁.breakText = [] := by
          rw [Cursor.breakText, hend]
        have htext' : c₁.marked.breakText = ['\n'] := by
          rw [Cursor.breakText, Cursor.marked_rest, hend]
          rfl
        have hmarker := Cursor.atMarker_of_end hend
        rw [Cursor.skipBreak_of_end hend, blockGap_of_end hend, blockGap_atMarker hmarker,
          htext, htext']
        exact hends _ _ _ _ hend hmarker (OneMore.lineEnd rfl rfl)
      · obtain ⟨y, hy⟩ := Option.ne_none_iff_exists'.mp (mt rest_eq_nil_iff.mpr hend)
        rw [Cursor.breakText_marked hy]
        have hgap := blockGap_meets indent 0 [] (Cursor.skipBreak_meets c₁)
          (by rw [length_marked]; omega : c₁.rest.length + 2 < c₁.marked.rest.length + 2)
        cases hread : blockGap indent 0 [] (c₁.rest.length + 2) c₁.skipBreak with
        | none => exact Follows.none
        | some r =>
            obtain ⟨breaks, deepest, c₂⟩ := r
            obtain ⟨⟨breaks', deepest', c₂'⟩, hread', hmeets⟩ := hgap _ hread
            rw [hread']
            rcases hmeets with ⟨hne₂, hkept⟩ | ⟨hend₂, hmarker, hbreaks | hbreaks⟩
            · cases hkept
              exact ih hne₂ (Nat.le_of_succ_le_succ hnm)
            · obtain rfl : breaks' = breaks := hbreaks
              exact hends _ _ _ _ hend₂ hmarker OneMore.same
            · obtain rfl : breaks' = '\n' :: breaks := hbreaks
              exact hends _ _ _ _ hend₂ hmarker OneMore.emptyLine

/-! ## Scalars -/

/-- What is left of the lines after chomping, the latest character first. -/
def BlockText.chomped (b : BlockText) : Chomping → List Char
  | .strip => b.text
  | .clip => b.lineEnd ++ b.text
  | .keep => b.breaks ++ b.lineEnd ++ b.text

theorem OneMore.chomped {b b' : BlockText} (h : OneMore b b') (chomping : Chomping) :
    b'.chomped chomping = b.chomped chomping ∨
      b'.chomped chomping = '\n' :: b.chomped chomping := by
  cases h with
  | same => exact Or.inl rfl
  | lineEnd hend hbreaks =>
      cases chomping with
      | strip => exact Or.inl rfl
      | clip => exact Or.inr (by simp [BlockText.chomped, hend])
      | keep => exact Or.inr (by simp [BlockText.chomped, hend, hbreaks])
  | emptyLine =>
      cases chomping with
      | strip => exact Or.inl rfl
      | clip => exact Or.inl rfl
      | keep => exact Or.inr rfl

/-- Where a block scalar ends: at the same character, or at the end of the text and the marker. In
the latter case it may have got one line feed more. -/
def MeetsBlock (a b : String × Cursor) : Prop :=
  b = (a.1, a.2.marked) ∨
    (a.2.rest = [] ∧ b.2.AtMarker ∧ (b.1 = a.1 ∨ b.1 = a.1 ++ "\n"))

theorem MeetsLines.chomped {b b' : BlockText} (h : MeetsLines (b, c) (b', c'))
    (chomping : Chomping) :
    MeetsBlock (String.ofList (b.chomped chomping).reverse, c)
      (String.ofList (b'.chomped chomping).reverse, c') := by
  rcases h with hkept | ⟨hend, hmarker, hmore⟩
  · cases hkept
    exact Or.inl rfl
  · refine Or.inr ⟨hend, hmarker, ?_⟩
    rcases hmore.chomped chomping with hsame | hlonger
    · exact Or.inl (congrArg (fun t : List Char => String.ofList t.reverse) hsame)
    · refine Or.inr ?_
      dsimp only at hlonger ⊢
      rw [hlonger, List.reverse_cons, String.ofList_append]

/-- **A block scalar at the end** gets at most a line feed from the line that follows. -/
theorem block?_marked {parent : Option Nat} {x : Char} (hx : c.peek = some x) :
    Follows MeetsBlock (block? folded parent c) (block? folded parent c.marked) := by
  unfold block?
  rw [skip_marked hx]
  refine Follows.bind (blockHeader?_marked c.skip) ?_
  rintro ⟨header, c₁⟩ ⟨header', c₁'⟩ ⟨hheader, hkept⟩
  obtain rfl : header = header' := hheader
  obtain rfl : c₁' = c₁.marked := hkept
  refine Follows.bind (Cursor.finishLine?_meets c₁) fun c₂ c₂' hmeets => ?_
  have hlength : c₂.rest.length + 2 < c₂'.rest.length + 2 := by
    rcases hmeets with rfl | ⟨hend, hmarker⟩
    · rw [length_marked]
      omega
    · rw [hend, hmarker.1]
      decide
  dsimp only
  refine Follows.bind (blockGap_meets _ 0 [] hmeets hlength) ?_
  have hpos : ∀ given deepest : Nat, 0 < if given = 0 then max deepest 1 else given := by
    intro given deepest
    split <;> omega
  have hclose : ∀ (r r' : BlockText × Cursor), MeetsLines r r' → Follows MeetsBlock
      (some (String.ofList (r.1.chomped header.chomping).reverse, r.2))
      (some (String.ofList (r'.1.chomped header.chomping).reverse, r'.2)) :=
    fun r r' hr => Follows.some (hr.chomped header.chomping)
  rintro ⟨breaks, deepest, c₃⟩ ⟨breaks', deepest', c₃'⟩ (⟨hne, hkept⟩ | ⟨hend, hmarker, hbreaks⟩)
  · cases hkept
    refine Follows.bind (blockLines_marked (hpos _ _) hne ?_) fun r r' hr => ?_
    · dsimp only
      rw [length_marked]
      omega
    · exact hclose r r' hr
  · -- no line of text has come
    have hmore : OneMore { breaks } { breaks := breaks' } := by
      rcases hbreaks with hbreaks | hbreaks
      · obtain rfl : breaks' = breaks := hbreaks
        exact OneMore.same
      · obtain rfl : breaks' = '\n' :: breaks := hbreaks
        exact OneMore.emptyLine
    dsimp only at hend hmarker ⊢
    rw [blockLines_of_end hend, blockLines_atMarker hmarker (hpos _ _)]
    exact hclose (_, _) (_, _) (Or.inr ⟨hend, hmarker, hmore⟩)

end SourceEdit.Yaml
