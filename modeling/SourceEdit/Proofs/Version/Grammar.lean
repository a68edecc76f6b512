import SourceEdit.Manifest.Version
import SourceEdit.Proofs.Text.Fields

/-!
# The grammar of versions and ranges

What a version is and what ranges are, told as the texts that they are put together from, and the
readers of both: a word is a version, and the ranges of a list are found one after another. A range
ends where its first closing bracket stands, so that reading never has to choose.
-/

namespace SourceEdit.Version

open Text (isBlank AreBlanks Padded)

/-! ## Words, ranges and lists of ranges -/

def openings : List Char := ['[', '(']

def closings : List Char := [']', ')']

/-- The characters that never belong to a version: the comma and the brackets. -/
def marks : List Char := ',' :: (openings ++ closings)

/-- A character of a version: no blank, no comma and no bracket. -/
structure IsWordChar (c : Char) : Prop where
  notBlank : isBlank c = false
  notMark : c ∉ marks

/-- A run of characters of a version. It may be empty. -/
def IsWord (cs : List Char) : Prop := ∀ c ∈ cs, IsWordChar c

/-- A version is a word that is not empty. -/
structure IsPlain (cs : List Char) : Prop where
  notEmpty : cs ≠ []
  word : IsWord cs

/-- A range is one word in square brackets, or two words with a comma between them in brackets of
either kind. There may be blanks around the words. -/
inductive IsRange : List Char → Prop
  | exact {b : List Char} (hb : Padded IsWord b) : IsRange ('[' :: (b ++ [']']))
  | between {o c : Char} {b b' : List Char} (ho : o ∈ openings) (hb : Padded IsWord b)
      (hb' : Padded IsWord b') (hc : c ∈ closings) : IsRange (o :: (b ++ ',' :: (b' ++ [c])))

/-- One range or more, with one comma between any two and blanks around the comma. -/
inductive AreRanges : List Char → Prop
  | last {r : List Char} (hr : IsRange r) : AreRanges r
  | cons {r s t rest : List Char} (hr : IsRange r) (hs : AreBlanks s) (ht : AreBlanks t)
      (hrest : AreRanges rest) : AreRanges (r ++ (s ++ ',' :: (t ++ rest)))

/-! ## Characters -/

theorem isVersionChar_iff {c : Char} : isVersionChar c = true ↔ IsWordChar c := by
  have hmarks : c ∉ marks ↔ ¬ c = ',' ∧ ¬ c = '[' ∧ ¬ c = '(' ∧ ¬ c = ']' ∧ ¬ c = ')' := by
    simp only [marks, openings, closings, List.cons_append, List.nil_append, List.mem_cons,
      List.not_mem_nil, or_false, not_or]
  simp only [isVersionChar, Bool.not_eq_true', Bool.or_eq_false_iff, beq_eq_false_iff_ne, ne_eq]
  constructor
  · rintro ⟨⟨⟨⟨⟨hblank, h₁⟩, h₂⟩, h₃⟩, h₄⟩, h₅⟩
    exact ⟨hblank, hmarks.mpr ⟨h₁, h₂, h₄, h₃, h₅⟩⟩
  · rintro ⟨hblank, hmark⟩
    obtain ⟨h₁, h₂, h₄, h₃, h₅⟩ := hmarks.mp hmark
    exact ⟨⟨⟨⟨⟨hblank, h₁⟩, h₂⟩, h₃⟩, h₄⟩, h₅⟩

theorem mem_marks_of_opening {c : Char} (h : c ∈ openings) : c ∈ marks :=
  List.mem_cons_of_mem _ (List.mem_append_left _ h)

theorem mem_marks_of_closing {c : Char} (h : c ∈ closings) : c ∈ marks :=
  List.mem_cons_of_mem _ (List.mem_append_right _ h)

theorem isVersionChar_of_mark {c : Char} (h : c ∈ marks) : isVersionChar c = false :=
  Bool.eq_false_iff.mpr fun hc => (isVersionChar_iff.mp hc).notMark h

theorem isBlank_of_mark {c : Char} (h : c ∈ marks) : isBlank c = false := by
  have hall : marks.all (isBlank · == false) = true := by decide
  exact eq_of_beq (List.all_eq_true.mp hall c h)

theorem notMem_marks_of_blank {c : Char} (h : isBlank c = true) : c ∉ marks := by
  intro hc
  rw [isBlank_of_mark hc] at h
  cases h

theorem not_isWordChar_of_blank {c : Char} (h : isBlank c = true) : ¬ IsWordChar c := by
  intro hc
  rw [hc.notBlank] at h
  cases h

theorem isVersionChar_of_blank {c : Char} (h : isBlank c = true) : isVersionChar c = false :=
  Bool.eq_false_iff.mpr fun hc => not_isWordChar_of_blank h (isVersionChar_iff.mp hc)

theorem notMem_closings_of_opening {c : Char} (h : c ∈ openings) : c ∉ closings := by
  have hall : openings.all (closings.contains · == false) = true := by decide
  have hc := eq_of_beq (List.all_eq_true.mp hall c h)
  rwa [← Bool.not_eq_true, List.contains_iff_mem] at hc

theorem isVersion_iff {cs : List Char} : isVersion cs = true ↔ IsPlain cs := by
  rw [isVersion, Bool.and_eq_true, Bool.not_eq_true', List.isEmpty_eq_false_iff, List.all_eq_true]
  simp only [isVersionChar_iff]
  exact ⟨fun h => ⟨h.1, h.2⟩, fun h => ⟨h.notEmpty, h.word⟩⟩

/-! ## Reading a bound -/

/-- What is passed over as a bound is a word with blanks around it. -/
theorem exists_bound (cs : List Char) : ∃ b, Padded IsWord b ∧ cs = b ++ afterBound cs := by
  obtain ⟨h₁, hs⟩ := Text.stretch_eq isBlank cs
  obtain ⟨h₂, hw⟩ := Text.stretch_eq isVersionChar (cs.dropWhile isBlank)
  obtain ⟨h₃, ht⟩ := Text.stretch_eq isBlank ((cs.dropWhile isBlank).dropWhile isVersionChar)
  refine ⟨_, ⟨_, _, _, hs, fun c hc => isVersionChar_iff.mp (hw c hc), ht, rfl⟩, ?_⟩
  rw [afterBound, List.append_assoc, ← h₃, List.append_assoc, ← h₂]
  exact h₁

/-- A word with blanks around it is passed over up to the mark behind it. -/
theorem afterBound_append {b rest : List Char} {c : Char} (hb : Padded IsWord b)
    (hc : c ∈ marks) : afterBound (b ++ c :: rest) = c :: rest := by
  obtain ⟨s, w, t, hs, hw, ht, rfl⟩ := hb
  have hword : ∀ x ∈ w, isVersionChar x = true := fun x hx => isVersionChar_iff.mpr (hw x hx)
  have htail : (t ++ c :: rest).dropWhile isBlank = c :: rest :=
    Text.dropWhile_append_cons ht (isBlank_of_mark hc)
  rw [afterBound, List.append_assoc, List.append_assoc, List.dropWhile_append_of_pos hs]
  cases w with
  | nil =>
      -- the blanks on both sides of nothing are one run
      rw [List.nil_append, htail, List.dropWhile_cons_of_neg (by simp [isVersionChar_of_mark hc]),
        List.dropWhile_cons_of_neg (by simp [isBlank_of_mark hc])]
  | cons x w =>
      have hstop : (t ++ c :: rest).dropWhile isVersionChar = t ++ c :: rest := by
        cases t with
        | nil => exact List.dropWhile_cons_of_neg (by simp [isVersionChar_of_mark hc])
        | cons y t =>
            exact List.dropWhile_cons_of_neg (by simp [isVersionChar_of_blank (ht y (by simp))])
      rw [List.cons_append, List.dropWhile_cons_of_neg (by simp [(hw x (by simp)).notBlank]),
        ← List.cons_append, List.dropWhile_append_of_pos hword, hstop, htail]

/-! ## Reading a range -/

theorem afterRange?_eq_some {cs rest : List Char} (h : afterRange? cs = some rest) :
    ∃ r, IsRange r ∧ cs = r ++ rest := by
  cases cs with
  | nil => cases h
  | cons o cs =>
      obtain ⟨b, hb, hcs⟩ := exists_bound cs
      rw [afterRange?] at h
      split at h
      case isFalse => cases h
      next hopen =>
      have ho : o ∈ openings := by simpa [openings] using hopen
      split at h
      · next rest' hbound =>
        rw [hbound] at hcs
        split at h
        · next hsquare =>
          obtain rfl := Option.some.inj h
          obtain rfl : o = '[' := by simpa using hsquare
          exact ⟨_, .exact hb, by rw [hcs]; simp⟩
        · cases h
      · next more hbound =>
        rw [hbound] at hcs
        obtain ⟨b', hb', hmore⟩ := exists_bound more
        have hend : ∃ c ∈ closings, afterBound more = c :: rest := by
          split at h
          · next hclose => exact ⟨']', by decide, (Option.some.inj h) ▸ hclose⟩
          · next hclose => exact ⟨')', by decide, (Option.some.inj h) ▸ hclose⟩
          · cases h
        obtain ⟨c, hc, hclose⟩ := hend
        rw [hclose] at hmore
        exact ⟨_, .between ho hb hb' hc, by rw [hcs, hmore]; simp⟩
      · cases h

theorem IsRange.afterRange?_append {r : List Char} (h : IsRange r) (rest : List Char) :
    afterRange? (r ++ rest) = some rest := by
  cases h with
  | exact hb =>
      rw [List.cons_append, List.append_assoc, afterRange?, List.singleton_append,
        afterBound_append hb (by decide)]
      rfl
  | @between o c b b' ho hb hb' hc =>
      have hopen : (o == '[' || o == '(') = true := by simpa [openings] using ho
      rw [List.cons_append, List.append_assoc, List.cons_append, List.append_assoc, afterRange?,
        if_pos hopen, afterBound_append hb (by decide), List.singleton_append]
      have hclose := mem_marks_of_closing hc
      rcases List.mem_cons.mp hc with rfl | hc
      · simp only [afterBound_append hb' hclose]
      · obtain rfl := List.mem_singleton.mp hc
        simp only [afterBound_append hb' hclose]

/-- A range starts with an opening bracket and ends with a closing one. -/
theorem IsRange.ends {r : List Char} (h : IsRange r) :
    ∃ o inner c, r = o :: (inner ++ [c]) ∧ o ∈ openings ∧ c ∈ closings := by
  cases h with
  | exact hb => exact ⟨'[', _, ']', rfl, by decide, by decide⟩
  | @between o c b b' ho hb hb' hc => exact ⟨o, b ++ ',' :: b', c, by simp, ho, hc⟩

/-! ## Reading a list of ranges -/

/-- A list of ranges starts with an opening bracket and ends with a closing one too. -/
theorem AreRanges.ends {cs : List Char} (h : AreRanges cs) :
    ∃ o inner c, cs = o :: (inner ++ [c]) ∧ o ∈ openings ∧ c ∈ closings := by
  induction h with
  | last hr => exact hr.ends
  | @cons r s t rest hr hs ht hrest ih =>
      obtain ⟨o, inner, c', rfl, ho, -⟩ := hr.ends
      obtain ⟨o', inner', c, rfl, -, hc⟩ := ih
      exact ⟨o, inner ++ c' :: (s ++ ',' :: (t ++ o' :: inner')), c, by simp, ho, hc⟩

theorem IsPlain.trim_eq (cs : List Char) (h : IsPlain cs) : Text.trim cs = cs :=
  Text.trim_eq_self fun c hc => (h.word c hc).notBlank

theorem AreRanges.trim_eq (cs : List Char) (h : AreRanges cs) : Text.trim cs = cs := by
  obtain ⟨o, inner, c, rfl, ho, hc⟩ := h.ends
  have hlast : (o :: (inner ++ [c])).getLast? = some c := by
    rw [← List.cons_append, List.getLast?_concat]
  exact Text.trim_eq_self_of_ends (isBlank_of_mark (mem_marks_of_opening ho)) hlast
    (isBlank_of_mark (mem_marks_of_closing hc))

theorem areRanges_sound {fuel : Nat} {cs : List Char} (h : areRanges fuel cs = true) :
    AreRanges cs := by
  induction fuel generalizing cs with
  | zero => cases h
  | succ fuel ih =>
      rw [areRanges] at h
      split at h
      · cases h
      · next hfirst =>
        obtain ⟨r, hr, rfl⟩ := afterRange?_eq_some hfirst
        rw [List.append_nil]
        exact .last hr
      · next rest _ hfirst =>
        obtain ⟨r, hr, rfl⟩ := afterRange?_eq_some hfirst
        obtain ⟨hrest, hs⟩ := Text.stretch_eq isBlank rest
        split at h
        · next more hcomma =>
          obtain ⟨hmore, ht⟩ := Text.stretch_eq isBlank more
          rw [hcomma] at hrest
          rw [hrest, hmore]
          exact .cons hr hs ht (ih h)
        · cases h

theorem AreRanges.complete {cs : List Char} (h : AreRanges cs) {fuel : Nat}
    (hfuel : cs.length < fuel) : areRanges fuel cs = true := by
  induction h generalizing fuel with
  | @last r hr =>
      obtain ⟨fuel, rfl⟩ := Nat.exists_eq_succ_of_ne_zero (Nat.ne_zero_of_lt hfuel)
      have hfirst := hr.afterRange?_append []
      rw [List.append_nil] at hfirst
      rw [areRanges, hfirst]
  | @cons r s t rest hr hs ht hrest ih =>
      obtain ⟨fuel, rfl⟩ := Nat.exists_eq_succ_of_ne_zero (Nat.ne_zero_of_lt hfuel)
      have hcomma : (s ++ ',' :: (t ++ rest)).dropWhile isBlank = ',' :: (t ++ rest) :=
        Text.dropWhile_append_cons hs (by decide)
      obtain ⟨o, inner, c, rfl, ho, -⟩ := hrest.ends
      have hnext : (t ++ o :: (inner ++ [c])).dropWhile isBlank = o :: (inner ++ [c]) :=
        Text.dropWhile_append_cons ht (isBlank_of_mark (mem_marks_of_opening ho))
      have hlength : (o :: (inner ++ [c])).length < fuel := by
        simp only [List.length_append, List.length_cons] at hfuel ⊢
        omega
      rw [areRanges, hr.afterRange?_append]
      cases hgap : s ++ ',' :: (t ++ o :: (inner ++ [c])) with
      | nil => exact absurd hgap (by simp)
      | cons x xs =>
          rw [hgap] at hcomma
          simp only [hcomma, hnext]
          exact ih hlength

/-! ## The check -/

/-- **The check of a version** accepts, up to blanks at the ends, just versions and lists of
ranges. -/
theorem isVersionOrRange_iff {text : String} : isVersionOrRange text = true ↔
    IsPlain (Text.trim text.toList) ∨ AreRanges (Text.trim text.toList) := by
  rw [isVersionOrRange, Bool.or_eq_true, isVersion_iff]
  exact or_congr_right ⟨areRanges_sound, fun h => h.complete (Nat.lt_succ_self _)⟩

end SourceEdit.Version
