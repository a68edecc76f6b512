import SourceEdit.Proofs.Yaml.Written.Record

/-!
# Records hold no forbidden character

A text may hold any character, but what is written for it holds only those that a document may have:
the others are escaped.
-/

namespace SourceEdit.Yaml

variable {bad : Option Char → Char → List Char → Bool} {before : Option Char} {text : List Char}
  {x y z : Char} {n : Nat} {value : String} {r : Record} {rs : List Record}

def Legible (text : List Char) : Prop := ∀ y ∈ text, isAllowed y = true

instance (text : List Char) : Decidable (Legible text) :=
  List.decidableBAll _ text

theorem legible_nil : Legible [] := by decide

theorem Legible.append {u v : List Char} (hu : Legible u) (hv : Legible v) : Legible (u ++ v) :=
  fun y hy => (List.mem_append.mp hy).elim (hu y) (hv y)

theorem Legible.cons (hx : isAllowed x = true) (h : Legible text) : Legible (x :: text) :=
  fun y hy => (List.mem_cons.mp hy).elim (fun heq => heq ▸ hx) (h y)

theorem legible_singleton (hx : isAllowed x = true) : Legible [x] :=
  legible_nil.cons hx

theorem isAllowed_of_isPrintable (h : isPrintable y = true) : isAllowed y = true := by
  simp only [isPrintable, isAllowed, Bool.or_eq_true, Bool.and_eq_true, beq_iff_eq, bne_iff_ne,
    decide_eq_true_eq] at h ⊢
  omega

theorem isAllowed_of_isAlpha (h : y.isAlpha = true) : isAllowed y = true := by
  have hrange : 65 ≤ y.toNat ∧ y.toNat ≤ 122 := by
    rcases Bool.or_eq_true_iff.mp h with hupper | hlower
    · obtain ⟨hlow, hhigh⟩ := of_decide_eq_true hupper
      exact ⟨hlow, Nat.le_trans hhigh (by decide)⟩
    · obtain ⟨hlow, hhigh⟩ := Bool.and_eq_true_iff.mp hlower
      exact ⟨Nat.le_trans (by decide) (of_decide_eq_true hlow), of_decide_eq_true hhigh⟩
  simp only [isAllowed, Bool.or_eq_true, Bool.and_eq_true, beq_iff_eq, decide_eq_true_eq]
  omega

/-- A text without characters that need an escape. -/
theorem legible_of_avoids (hbad : ∀ before c cs, bad before c cs = false → isPrintable c = true)
    (h : Avoids bad before text) : Legible text := by
  induction text generalizing before with
  | nil => exact legible_nil
  | cons x text ih => exact (ih h.2).cons (isAllowed_of_isPrintable (hbad _ _ _ h.1))

/-! ## Styles -/

theorem legible_upperDigits (n : Nat) : Legible (upperDigits n) := by
  have hdigit : ∀ d < 16, isAllowed (Nat.digitChar d).toUpper = true := by decide
  induction n using Nat.strongRecOn with
  | _ n ih =>
      by_cases hn : n < 16
      · rw [upperDigits, Nat.toDigits_of_lt_base hn]
        exact legible_singleton (hdigit n hn)
      · rw [upperDigits_of_le (Nat.le_of_not_lt hn)]
        exact (ih (n / 16) (by omega)).append
          (legible_singleton (hdigit _ (Nat.mod_lt n (by decide))))

theorem legible_hexText (count n : Nat) : Legible (hexText count n) := by
  refine Legible.append (fun y hy => ?_) (legible_upperDigits n)
  rw [(List.mem_replicate.mp hy).2]
  rfl

theorem legible_doubleQuotedChar (y : Char) : Legible (doubleQuotedChar y) := by
  unfold doubleQuotedChar
  dsimp only
  split
  · next h =>
    simp only [Bool.and_eq_true] at h
    exact legible_singleton (isAllowed_of_isPrintable h.1.1.1)
  · split
    case h_16 =>
      have hnumber : ∀ count x, isAllowed x = true → Legible ('\\' :: x :: hexText count y.toNat) :=
        fun count x hx => (legible_hexText count y.toNat).cons hx |>.cons rfl
      split
      · exact hnumber 2 'x' rfl
      · split
        · exact hnumber 4 'u' rfl
        · exact hnumber 8 'U' rfl
    all_goals decide

theorem legible_singleQuotedBody (h : Legible text) (after : Bool) :
    Legible (singleQuotedBody after text) := by
  have hindent : ∀ b : Bool, Legible (if b then nodeIndent else []) := by
    intro b
    cases b <;> decide
  induction text generalizing after with
  | nil => exact hindent after
  | cons x text ih =>
      have hx := h x (List.mem_cons_self ..)
      have hrest := ih fun y hy => h y (List.mem_cons_of_mem _ hy)
      rw [singleQuotedBody]
      split
      · exact (hrest true).cons hx
      · refine ((hindent _).append ?_).append (hrest _)
        split
        · decide
        · exact legible_singleton hx

theorem legible_literalBody (h : Legible text) (start : Bool) :
    Legible (literalBody start text) := by
  have hindent : Legible (if start then nodeIndent else []) := by
    cases start <;> decide
  induction text generalizing start with
  | nil => exact h
  | cons x text ih =>
      have hx := h x (List.mem_cons_self ..)
      have hrest := fun start hindent =>
        ih (fun y hy => h y (List.mem_cons_of_mem _ hy)) start hindent
      rw [literalBody]
      split
      · exact (hrest true (by decide)).cons hx
      · exact hindent.append ((hrest false legible_nil).cons hx)

theorem legible_literalHeader (text : List Char) : Legible (literalHeader text) := by
  have hheader : literalHeader text = '|' :: (if startsWide text then ['2'] else []) ++
      (if keepsBreaks text then ['+'] else if endsLine text then [] else ['-']) := rfl
  rw [hheader]
  cases startsWide text <;> cases keepsBreaks text <;> cases endsLine text <;>
    decide

/-! ## Records -/

theorem legible_valueText (value : String) : Legible (valueText value) := by
  have hfeed : Legible ['\n'] := by decide
  have hsuits := suits_styleFor value
  rw [valueText]
  generalize styleFor value = style at hsuits
  cases hsuits with
  | plain htext hne havoid =>
      refine Legible.append (legible_of_avoids (fun before c cs hbad => ?_) havoid) hfeed
      simp only [unplain, Bool.or_eq_false_iff, Bool.not_eq_false'] at hbad
      exact hbad.1.1.1.2
  | singleQuoted hfeeds havoid =>
      have htext := legible_of_avoids (fun before c cs hbad => by
        simp only [unquotable, Bool.or_eq_false_iff, Bool.not_eq_false'] at hbad
        exact hbad.1.1) havoid
      exact (((legible_singleQuotedBody htext false).cons rfl).append (by decide)).append hfeed
  | doubleQuoted =>
      have htext : Legible (value.toList.flatMap doubleQuotedChar) := by
        intro y hy
        obtain ⟨x, -, hx⟩ := List.mem_flatMap.mp hy
        exact legible_doubleQuotedChar x y hx
      exact ((htext.cons rfl).append (by decide)).append hfeed
  | literal hne havoid =>
      have htext := legible_of_avoids (fun before c cs hbad => by
        simp only [unblockable, Bool.or_eq_false_iff, Bool.not_eq_false'] at hbad
        exact hbad.1.1) havoid
      refine ((legible_literalHeader _).append
        ((legible_literalBody htext true).cons rfl)).append ?_
      show Legible (closer value.toList)
      rw [closer]
      cases endsLine value.toList with
      | true => exact legible_nil
      | false => exact hfeed

theorem legible_recordText (hr : Writable r) : Legible (recordText r) := by
  refine Legible.append (fun y hy => ?_) ?_
  · obtain ⟨f, hf, hy⟩ := List.mem_flatMap.mp hy
    have hname : Legible f.1.toList :=
      fun x hx => isAllowed_of_isAlpha ((hr.names f hf).letters x hx)
    exact hname.append (((legible_valueText f.2).cons rfl).cons rfl) y hy
  · split <;> decide

/-- **A chain of records** holds no character that a document may not have. -/
theorem legible_chainText (hr : Writable r) (hrs : ∀ r' ∈ rs, Writable r') :
    Legible (chainText r rs) := by
  induction rs generalizing r with
  | nil => exact legible_recordText hr
  | cons r' rs ih =>
      have hrest := ih (hrs r' (List.mem_cons_self ..))
        fun r'' h => hrs r'' (List.mem_cons_of_mem _ h)
      have hmarker : Legible markerLine := by decide
      exact (legible_recordText hr).append ((hmarker.append hrest).cons rfl)

end SourceEdit.Yaml
