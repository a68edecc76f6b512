import SourceEdit.Yaml.Writer

/-!
# What a style asks of a text

The writer collects traits of a text in one pass and chooses a style by them. For a proof about the
reader it is handier to know of each character what cannot be the case where it stands: `Avoids`
says this along the text, and each style comes with what its texts avoid.
-/

namespace SourceEdit.Yaml

/-- No character is `bad` where it stands: after the character before it, and in front of the text
after it. -/
def Avoids (bad : Option Char → Char → List Char → Bool) (before : Option Char) :
    List Char → Prop
  | [] => True
  | c :: cs => bad before c cs = false ∧ Avoids bad (some c) cs

variable {bad : Option Char → Char → List Char → Bool} {before : Option Char}
  {text cs : List Char} {c : Char} {t : Traits}

/-! ## One pass over the text -/

def traitsStep (t : Traits) (before : Option Char) (c : Char) (cs : List Char) : Traits :=
  { t with
    indicators := t.indicators || isIndicator before.isNone
      (before.all fun b => isBlank b || isBreak b) (isBlankOrEnd cs.head?) c
    special := t.special || !isPrintable c
    lineBreaks := t.lineBreaks || isBreak c
    leadingBlank := t.leadingBlank || (before.isNone && c == ' ')
    trailingBlank := t.trailingBlank || (cs.isEmpty && c == ' ')
    leadingBreak := t.leadingBreak || (before.isNone && isBreak c)
    trailingBreak := t.trailingBreak || (cs.isEmpty && isBreak c)
    breakBlank := t.breakBlank || (c == ' ' && before.any isBreak)
    blankBreak := t.blankBreak || (isBreak c && before == some ' ') }

theorem traitsFrom_cons : traitsFrom t before (c :: cs) =
    traitsFrom (traitsStep t before c cs) (some c) cs := rfl

/-- A trait that each character may add, but none removes. -/
theorem avoids_of_trait {trait : Traits → Bool}
    (hstep : ∀ t before c cs, trait (traitsStep t before c cs) = (trait t || bad before c cs))
    (h : trait (traitsFrom t before text) = false) : trait t = false ∧ Avoids bad before text := by
  induction text generalizing t before with
  | nil => exact ⟨h, trivial⟩
  | cons c cs ih =>
      rw [traitsFrom_cons] at h
      obtain ⟨htrait, havoids⟩ := ih h
      rw [hstep, Bool.or_eq_false_iff] at htrait
      exact ⟨htrait.1, htrait.2, havoids⟩

theorem avoids_of_traits {trait : Traits → Bool}
    (hstep : ∀ t before c cs, trait (traitsStep t before c cs) = (trait t || bad before c cs))
    (h : trait (traits text) = false) : Avoids bad none text := by
  have hpass : trait (traitsFrom _ none text) = false := h
  exact (avoids_of_trait hstep hpass).2

/-! ## Styles -/

/-- What no text without quotes holds: an indicator, a character that needs an escape, a line end,
a blank at an end. -/
def unplain (before : Option Char) (c : Char) (cs : List Char) : Bool :=
  isIndicator before.isNone (before.all fun b => isBlank b || isBreak b)
      (isBlankOrEnd cs.head?) c ||
    !isPrintable c || isBreak c || (before.isNone && c == ' ') || (cs.isEmpty && c == ' ')

/-- What no text in single quotes holds: a character that needs an escape, a blank and a line end
next to each other. -/
def unquotable (before : Option Char) (c : Char) (_ : List Char) : Bool :=
  !isPrintable c || (c == ' ' && before.any isBreak) || (isBreak c && before == some ' ')

/-- What no literal block holds: a character that needs an escape, a blank in front of a line end or
at the end. -/
def unblockable (before : Option Char) (c : Char) (cs : List Char) : Bool :=
  !isPrintable c || (cs.isEmpty && c == ' ') || (isBreak c && before == some ' ')

theorem avoids_of_allowsPlain (h : (traits text).allowsPlain = true) :
    Avoids unplain none text := by
  let trait := fun t : Traits =>
    t.indicators || t.special || t.lineBreaks || t.leadingBlank || t.trailingBlank
  have hstep : ∀ t before c cs, trait (traitsStep t before c cs) =
      (trait t || unplain before c cs) := by
    intro t before c cs
    simp only [trait, traitsStep, unplain]
    ac_rfl
  refine avoids_of_traits hstep ?_
  unfold Traits.allowsPlain at h
  simp only [Bool.not_eq_true', Bool.or_eq_false_iff] at h
  obtain ⟨⟨⟨⟨⟨⟨⟨⟨hleading, -⟩, htrailing⟩, -⟩, -⟩, -⟩, hspecial⟩, hbreaks⟩, hindicators⟩ := h
  simp only [trait, Bool.or_eq_false_iff]
  exact ⟨⟨⟨⟨hindicators, hspecial⟩, hbreaks⟩, hleading⟩, htrailing⟩

theorem avoids_of_allowsSingleQuotes (h : (traits text).allowsSingleQuotes = true) :
    Avoids unquotable none text := by
  let trait := fun t : Traits => t.special || t.breakBlank || t.blankBreak
  have hstep : ∀ t before c cs, trait (traitsStep t before c cs) =
      (trait t || unquotable before c cs) := by
    intro t before c cs
    simp only [trait, traitsStep, unquotable]
    ac_rfl
  refine avoids_of_traits hstep ?_
  unfold Traits.allowsSingleQuotes at h
  simp only [Bool.not_eq_true', Bool.or_eq_false_iff] at h
  simp only [trait, Bool.or_eq_false_iff]
  exact ⟨⟨h.2, h.1.1⟩, h.1.2⟩

theorem avoids_of_allowsBlock (h : (traits text).allowsBlock = true) :
    Avoids unblockable none text := by
  let trait := fun t : Traits => t.special || t.trailingBlank || t.blankBreak
  have hstep : ∀ t before c cs, trait (traitsStep t before c cs) =
      (trait t || unblockable before c cs) := by
    intro t before c cs
    simp only [trait, traitsStep, unblockable]
    ac_rfl
  refine avoids_of_traits hstep ?_
  unfold Traits.allowsBlock at h
  simp only [Bool.not_eq_true', Bool.or_eq_false_iff] at h
  simp only [trait, Bool.or_eq_false_iff]
  exact ⟨⟨h.2, h.1.1⟩, h.1.2⟩

end SourceEdit.Yaml
