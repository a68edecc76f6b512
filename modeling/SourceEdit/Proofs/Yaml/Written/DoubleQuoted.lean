import Mathlib.Algebra.Group.Nat.Defs
import SourceEdit.Proofs.Text.Decimal
import SourceEdit.Proofs.Yaml.Written.Quoted

/-!
# Texts in double quotes read back

Every character but a blank is written as something other than a blank or a line end: as itself, as
an escape of one letter, or as its number in hexadecimal digits. So the gaps of what is written are
the blanks of the text.
-/

namespace SourceEdit.Yaml

variable {c : Cursor} {a u v z text : List Char} {x y : Char} {n count acc fuel : Nat}

/-! ## Numbers -/

theorem hexRun?_append (acc : Nat) {i j : Nat} (hu : u.length = i) :
    hexRun? acc (i + j) (u ++ v) = (hexRun? acc i u).bind fun a => hexRun? a j v := by
  subst hu
  induction u generalizing acc with
  | nil =>
      rw [List.length_nil, Nat.zero_add]
      rfl
  | cons x u ih =>
      rw [List.length_cons, Nat.add_right_comm, List.cons_append, hexRun?, hexRun?]
      cases Text.digit? 16 x with
      | none => rfl
      | some d => exact ih _

theorem hexRun?_zeros (k : Nat) : hexRun? 0 k (List.replicate k '0') = some 0 := by
  induction k with
  | zero => rfl
  | succ k ih => exact ih

def upperDigits (n : Nat) : List Char := (Nat.toDigits 16 n).map Char.toUpper

theorem upperDigits_of_le (hn : 16 ≤ n) :
    upperDigits n = upperDigits (n / 16) ++ [(Nat.digitChar (n % 16)).toUpper] := by
  rw [upperDigits, Nat.toDigits_of_base_le (by decide) hn, List.map_append]
  rfl

theorem hexRun?_upperDigits (n : Nat) :
    hexRun? 0 (upperDigits n).length (upperDigits n) = some n := by
  induction n using Nat.strongRecOn with
  | _ n ih =>
      by_cases hn : n < 16
      · rw [upperDigits, Nat.toDigits_of_lt_base hn, List.map_singleton, List.length_singleton,
          hexRun?, Text.digit?_toUpper_digitChar hn]
        show some (0 * 16 + n) = _
        rw [Nat.zero_mul, Nat.zero_add]
      · rw [upperDigits_of_le (Nat.le_of_not_lt hn), List.length_append, hexRun?_append 0 rfl,
          ih (n / 16) (by omega), Option.bind_some, List.length_singleton, hexRun?,
          Text.digit?_toUpper_digitChar (Nat.mod_lt n (by decide))]
        show some (n / 16 * 16 + n % 16) = _
        rw [Nat.div_add_mod']

theorem length_upperDigits (hn : n < 16 ^ count) (hcount : 0 < count) :
    (upperDigits n).length ≤ count := by
  rw [upperDigits, List.length_map]
  exact (Nat.length_toDigits_le_iff (by decide) hcount).mpr hn

theorem length_hexText (hn : n < 16 ^ count) (hcount : 0 < count) :
    (hexText count n).length = count := by
  have hle := length_upperDigits hn hcount
  show (List.replicate (count - (upperDigits n).length) '0' ++ upperDigits n).length = count
  rw [List.length_append, List.length_replicate]
  omega

/-- The digits of a number are read back. -/
theorem hexRun?_hexText (hn : n < 16 ^ count) (hcount : 0 < count) :
    hexRun? 0 count (hexText count n ++ z) = some n := by
  have hle := length_upperDigits hn hcount
  have hsplit := hexRun?_append 0 (v := z) (j := 0) (length_hexText hn hcount)
  have hdigits : hexRun? 0 count (hexText count n) = some n := by
    show hexRun? 0 count (List.replicate (count - (upperDigits n).length) '0' ++ upperDigits n) = _
    have hcut := hexRun?_append 0 (v := upperDigits n) (j := (upperDigits n).length)
      (List.length_replicate (n := count - (upperDigits n).length) (a := '0'))
    rw [hexRun?_zeros, Option.bind_some, hexRun?_upperDigits, Nat.sub_add_cancel hle] at hcut
    exact hcut
  rw [hdigits, Nat.add_zero] at hsplit
  rw [hsplit]
  rfl

/-! ## Characters -/

/-- How a character stands in double quotes. -/
inductive Escaped (y : Char) : List Char → Prop where
  | itself : (isBlank y || isBreak y) = false → y ≠ '"' → y ≠ '\\' → Escaped y [y]
  | letter (x : Char) : isBreak x = false → simpleEscape? x = some y → Escaped y ['\\', x]
  | number (x : Char) (count : Nat) : isBreak x = false → simpleEscape? x = none →
      hexEscapeLength? x = some count → 0 < count → y.toNat < 16 ^ count →
      Escaped y ('\\' :: x :: hexText count y.toNat)

theorem escaped_number (y : Char) :
    Escaped y (if y.toNat ≤ 0xFF then '\\' :: 'x' :: hexText 2 y.toNat
      else if y.toNat ≤ 0xFFFF then '\\' :: 'u' :: hexText 4 y.toNat
      else '\\' :: 'U' :: hexText 8 y.toNat) := by
  split
  · rename_i h
    exact .number 'x' 2 rfl rfl rfl (by decide) (Nat.lt_succ_of_le h)
  · split
    · rename_i h
      exact .number 'u' 4 rfl rfl rfl (by decide) (Nat.lt_succ_of_le h)
    · have hlt : y.toNat < 2 ^ 32 := y.val.toNat_lt
      exact .number 'U' 8 rfl rfl rfl (by decide) hlt

theorem escaped_doubleQuotedChar (hy : y ≠ ' ') : Escaped y (doubleQuotedChar y) := by
  have hof {k : Nat} (h : y.toNat = k) : y = Char.ofNat k := by rw [← h, Char.ofNat_toNat]
  unfold doubleQuotedChar
  dsimp only
  split
  · rename_i h
    simp only [Bool.and_eq_true, Bool.not_eq_true', bne_iff_ne] at h
    obtain ⟨⟨⟨hprintable, hbreak⟩, hquote⟩, hslash⟩ := h
    refine .itself ?_ hquote hslash
    have hblank : isBlank y = false := by
      rw [Bool.eq_false_iff, Ne, isBlank, Bool.or_eq_true, beq_iff_eq, beq_iff_eq]
      rintro (rfl | rfl)
      · exact hy rfl
      · exact absurd hprintable (by decide)
    rw [hblank, hbreak]
    rfl
  · split
    case h_16 => exact escaped_number y
    all_goals
      rename_i h
      rw [hof h]
      exact .letter _ (by decide) (by decide)

theorem readsChar_itself (hgap : (isBlank y || isBreak y) = false) (hquote : y ≠ '"')
    (hslash : y ≠ '\\') : ReadsChar false y [y] := by
  refine ⟨List.cons_ne_nil _ _, fun a z fuel c hrest => ?_⟩
  have hskip : c.skip = ⟨z, c.index + 1, c.line, c.column + 1⟩ := Cursor.skip_of_rest hrest
  refine ⟨c.skip, ?_, by rw [hskip], by rw [hskip]; exact Nat.le_succ _⟩
  rw [quotedRun, Cursor.peek, hrest]
  show (if (isBlank y || isBreak y) = true then _ else _) = _
  rw [hgap, if_neg Bool.false_ne_true, if_neg Bool.false_ne_true,
    if_neg (by rwa [beq_iff_eq]), if_neg (by rwa [beq_iff_eq])]
  rfl

/-- The reader takes up an escape that it knows. -/
theorem quotedRun_escape {c' : Cursor} (hrest : c.rest = '\\' :: x :: z)
    (hbreak : isBreak x = false) (hescape : escapeAt? c = some (y, c')) :
    quotedRun false { text := a } (fuel + 1) c = quotedRun false { text := y :: a } fuel c' := by
  have hnext : c.peekAt 1 = some x := Cursor.peekAt_one_of_rest hrest
  rw [quotedRun, Cursor.peek, hrest]
  show (if (c.peekAt 1).any isBreak = true then _ else _) = _
  rw [hnext, Option.any_some, hbreak, if_neg Bool.false_ne_true, hescape]
  rfl

theorem readsChar_letter (hbreak : isBreak x = false) (hletter : simpleEscape? x = some y) :
    ReadsChar false y ['\\', x] := by
  refine ⟨List.cons_ne_nil _ _, fun a z fuel c hrest => ?_⟩
  have hskip := Cursor.skipMany_eq (c := c) (n := 2) (by rw [hrest]; simp)
  have hescape : escapeAt? c = some (y, c.skipMany 2) := by
    have hpeek : c.peekAt 1 = some x := Cursor.peekAt_one_of_rest hrest
    simp only [escapeAt?, hpeek, hletter, Option.bind_eq_bind, Option.bind_some]
  refine ⟨c.skipMany 2, quotedRun_escape hrest hbreak hescape, by rw [hskip, hrest]; rfl, ?_⟩
  rw [hskip]
  exact Nat.le_add_right _ _

theorem readsChar_number {count : Nat} (hbreak : isBreak x = false)
    (hletter : simpleEscape? x = none) (hcount : hexEscapeLength? x = some count)
    (hpos : 0 < count) (hlt : y.toNat < 16 ^ count) :
    ReadsChar false y ('\\' :: x :: hexText count y.toNat) := by
  refine ⟨List.cons_ne_nil _ _, fun a z fuel c hrest => ?_⟩
  have hlength := length_hexText hlt hpos
  have hskip := Cursor.skipMany_eq (c := c) (n := 2 + count)
    (by rw [hrest]; simp only [List.length_append, List.length_cons]; omega)
  have hdrop : c.rest.drop 2 = hexText count y.toNat ++ z := by
    rw [hrest]
    rfl
  have hrest' : (c.skipMany (2 + count)).rest = z := by
    rw [hskip]
    show c.rest.drop (2 + count) = z
    rw [← List.drop_drop, hdrop, List.drop_append_of_le_length (Nat.le_of_eq hlength.symm),
      List.drop_of_length_le (Nat.le_of_eq hlength), List.nil_append]
  have hescape : escapeAt? c = some (y, c.skipMany (2 + count)) := by
    have hpeek : c.peekAt 1 = some x := Cursor.peekAt_one_of_rest hrest
    have hcode : hexRun? 0 count (c.rest.drop 2) = some y.toNat := by
      rw [hdrop, hexRun?_hexText hlt hpos]
    simp only [escapeAt?, hpeek, hletter, hcount, hcode, Text.charOf?_toNat, Option.bind_eq_bind,
      Option.bind_some]
  refine ⟨c.skipMany (2 + count), quotedRun_escape hrest hbreak hescape, hrest', ?_⟩
  rw [hskip]
  exact Nat.le_add_right _ _

theorem readsChar_of_escaped {written : List Char} (h : Escaped y written) :
    ReadsChar false y written := by
  cases h with
  | itself hgap hquote hslash => exact readsChar_itself hgap hquote hslash
  | letter x hbreak hletter => exact readsChar_letter hbreak hletter
  | number x count hbreak hletter hcount hpos hlt =>
      exact readsChar_number hbreak hletter hcount hpos hlt

/-! ## The whole text -/

theorem flatMap_blanks (k : Nat) :
    (List.replicate k ' ').flatMap doubleQuotedChar = List.replicate k ' ' := by
  induction k with
  | zero => rfl
  | succ k ih => exact congrArg (' ' :: ·) ih

theorem exists_cons_of_word (hu : u.head? ≠ some ' ') (z : List Char) :
    ∃ x z', u.flatMap doubleQuotedChar ++ '"' :: z = x :: z' ∧
      (isBlank x || isBreak x) = false := by
  cases u with
  | nil => exact ⟨'"', z, rfl, by decide⟩
  | cons y u =>
      have hescaped : Escaped y (doubleQuotedChar y) :=
        escaped_doubleQuotedChar fun h => hu (congrArg some h)
      rw [List.flatMap_cons, List.append_assoc]
      generalize doubleQuotedChar y = written at hescaped
      cases hescaped with
      | itself hgap hquote hslash => exact ⟨y, _, rfl, hgap⟩
      | letter x hbreak hletter => exact ⟨'\\', _, rfl, by decide⟩
      | number x count hbreak hletter hcount hpos hlt => exact ⟨'\\', _, rfl, by decide⟩

theorem quotedLoop_double (hrest : c.rest = text.flatMap doubleQuotedChar ++ '"' :: z)
    (hz : z.head? ≠ some '\'') (hcolumn : 0 < c.column) (hfuel : text.length < fuel) :
    ∃ c', quotedLoop false { text := a } fuel c = some (String.ofList (a.reverse ++ text), c') ∧
      c'.rest = z := by
  induction fuel generalizing text c a with
  | zero => exact absurd hfuel (Nat.not_lt_zero _)
  | succ fuel ih =>
      obtain ⟨w, v, rfl, hw, hv⟩ := exists_word text
      have henc : ∀ y ∈ w, ReadsChar false y (doubleQuotedChar y) := fun y hy =>
        readsChar_of_escaped (escaped_doubleQuotedChar (hw y hy))
      rw [List.flatMap_append] at hrest
      rcases hv with rfl | ⟨k, u, rfl, hu⟩
      · obtain ⟨c', hread, hrest'⟩ := quotedLoop_end (a := a) fuel henc hz
          (by rw [hrest, List.append_assoc]; rfl) hcolumn
        exact ⟨c', by rw [hread, List.append_nil], hrest'⟩
      · rw [List.flatMap_append, flatMap_blanks, List.append_assoc, List.append_assoc] at hrest
        obtain ⟨c₁, hround, hrest₁, hcolumn₁⟩ := quotedLoop_round (a := a) fuel henc
          (readsGap_blanks k) (exists_cons_of_word hu z) hrest hcolumn
        have hfuel' : u.length < fuel := by
          simp only [List.length_append, List.length_replicate] at hfuel
          omega
        obtain ⟨c', hread, hrest'⟩ := ih (a := (w ++ List.replicate (k + 1) ' ').reverse ++ a)
          hrest₁ hcolumn₁ hfuel'
        refine ⟨c', ?_, hrest'⟩
        rw [hround, hread]
        simp only [List.reverse_append, List.reverse_reverse, List.append_assoc]

theorem length_le_doubleQuoted (text : List Char) :
    text.length ≤ (text.flatMap doubleQuotedChar).length := by
  induction text with
  | nil => exact Nat.le_refl _
  | cons y text ih =>
      have hpos : 1 ≤ (doubleQuotedChar y).length := by
        by_cases hy : y = ' '
        · rw [hy]
          decide
        · exact List.length_pos_iff.mpr (readsChar_of_escaped (escaped_doubleQuotedChar hy)).1
      rw [List.flatMap_cons, List.length_append, List.length_cons]
      omega

/-- **A text in double quotes** is read back. -/
theorem quoted?_double (text : List Char)
    (hrest : c.rest = '"' :: text.flatMap doubleQuotedChar ++ '"' :: z)
    (hz : z.head? ≠ some '\'') :
    ∃ c', quoted? false c = some (String.ofList text, c') ∧ c'.rest = z := by
  have hskip : c.skip = ⟨text.flatMap doubleQuotedChar ++ '"' :: z, c.index + 1, c.line,
      c.column + 1⟩ := Cursor.skip_of_rest hrest
  unfold quoted?
  rw [hskip]
  refine quotedLoop_double rfl hz (Nat.succ_pos _) ?_
  have hle := length_le_doubleQuoted text
  rw [hrest, List.cons_append, List.length_cons, List.length_append]
  omega

end SourceEdit.Yaml
