import SourceEdit.Proofs.Version.Grammar

/-!
# Where the characters of ranges stand

A list of ranges can be walked through from left to right with little memory: whether the walk is
outside all ranges or inside one, and there, how the range began, whether its comma has come, and
how much of a word has. From what a single step may do it follows that brackets are closed and never
nested, that no version stands outside of them, and that no blanks stand within a word.
-/

namespace SourceEdit.Version

open Text (isBlank AreBlanks Padded)

/-! ## Steps and walks -/

/-- How much has been seen of a word. -/
inductive Phase where
  | before
  | within
  | behind

def Phase.afterBlank : Phase → Phase
  | .before => .before
  | _ => .behind

/-- A place in a list of ranges: outside of them, or inside one that may have begun with a round
bracket and whose comma may have come. -/
inductive Place where
  | outside
  | inside (round comma : Bool) (phase : Phase)

inductive Step : Place → Char → Place → Prop
  | between {c : Char} (h : isBlank c = true ∨ c = ',') : Step .outside c .outside
  | opening {c : Char} (h : c ∈ openings) : Step .outside c (.inside (c == '(') false .before)
  | blank {c : Char} {round comma : Bool} {phase : Phase} (h : isBlank c = true) :
    Step (.inside round comma phase) c (.inside round comma phase.afterBlank)
  | word {c : Char} {round comma : Bool} {phase : Phase} (h : IsWordChar c)
    (hphase : phase ≠ .behind) : Step (.inside round comma phase) c (.inside round comma .within)
  | comma {round : Bool} {phase : Phase} :
    Step (.inside round false phase) ',' (.inside round true .before)
  | closing {c : Char} {round comma : Bool} {phase : Phase} (h : c ∈ closings)
    (hcomma : comma = true ∨ c = ']' ∧ round = false) : Step (.inside round comma phase) c .outside

inductive Walk : Place → List Char → Place → Prop
  | nil {p : Place} : Walk p [] p
  | cons {p q r : Place} {c : Char} {cs : List Char} (hstep : Step p c q) (hrest : Walk q cs r) :
    Walk p (c :: cs) r

variable {p q r : Place} {c : Char} {cs ds : List Char}

theorem walk_append_iff : Walk p (cs ++ ds) r ↔ ∃ q, Walk p cs q ∧ Walk q ds r := by
  induction cs generalizing p with
  | nil =>
      constructor
      · exact fun h => ⟨p, .nil, h⟩
      · rintro ⟨q, hnil, h⟩
        cases hnil
        exact h
  | cons c cs ih =>
      constructor
      · intro h
        cases h with
        | cons hstep hrest =>
            obtain ⟨q, hcs, hds⟩ := ih.mp hrest
            exact ⟨q, .cons hstep hcs, hds⟩
      · rintro ⟨q, hcs, hds⟩
        cases hcs with
        | cons hstep hrest => exact .cons hstep (ih.mpr ⟨q, hrest, hds⟩)

theorem Walk.append (h : Walk p cs q) (h' : Walk q ds r) : Walk p (cs ++ ds) r :=
  walk_append_iff.mpr ⟨q, h, h'⟩

theorem Step.walk (h : Step p c q) : Walk p [c] q := .cons h .nil

/-! ## Walks through ranges -/

theorem walk_outside (h : AreBlanks cs) : Walk .outside cs .outside := by
  induction cs with
  | nil => exact .nil
  | cons c cs ih =>
      have hrest := ih fun x hx => h x (List.mem_cons_of_mem _ hx)
      exact .cons (.between (Or.inl (h c (by simp)))) hrest

/-- Blanks keep a walk inside a range, and before a word if it has not begun. -/
theorem walk_blanks (round comma : Bool) (phase : Phase) (h : AreBlanks cs) :
    ∃ phase', Walk (.inside round comma phase) cs (.inside round comma phase') ∧
      (phase = .before → phase' = .before) := by
  induction cs generalizing phase with
  | nil => exact ⟨phase, .nil, id⟩
  | cons c cs ih =>
      obtain ⟨phase', hwalk, hbefore⟩ :=
        ih phase.afterBlank fun x hx => h x (List.mem_cons_of_mem _ hx)
      refine ⟨phase', .cons (.blank (h c (by simp))) hwalk, ?_⟩
      rintro rfl
      exact hbefore rfl

theorem walk_word (round comma : Bool) {phase : Phase} (h : IsWord cs)
    (hphase : phase ≠ .behind) :
    ∃ phase', Walk (.inside round comma phase) cs (.inside round comma phase') := by
  induction cs generalizing phase with
  | nil => exact ⟨phase, .nil⟩
  | cons c cs ih =>
      have hwithin : Phase.within ≠ .behind := nofun
      obtain ⟨phase', hwalk⟩ := ih (fun x hx => h x (List.mem_cons_of_mem _ hx)) hwithin
      exact ⟨phase', .cons (.word (h c (by simp)) hphase) hwalk⟩

/-- A bound is walked through inside a range. -/
theorem walk_bound (round comma : Bool) (h : Padded IsWord cs) :
    ∃ phase, Walk (.inside round comma .before) cs (.inside round comma phase) := by
  obtain ⟨s, w, t, hs, hw, ht, rfl⟩ := h
  obtain ⟨_, hstart, hbefore⟩ := walk_blanks round comma .before hs
  obtain rfl := hbefore rfl
  have hfirst : Phase.before ≠ .behind := nofun
  obtain ⟨_, hword⟩ := walk_word round comma hw hfirst
  obtain ⟨phase, hend, -⟩ := walk_blanks round comma _ ht
  exact ⟨phase, (hstart.append hword).append hend⟩

theorem IsRange.walk (h : IsRange cs) : Walk .outside cs .outside := by
  cases h with
  | exact hb =>
      obtain ⟨phase, hbound⟩ := walk_bound _ _ hb
      have hclose : Step (.inside false false phase) ']' .outside :=
        .closing (by decide) (Or.inr ⟨rfl, rfl⟩)
      exact .cons (.opening (by decide)) (hbound.append hclose.walk)
  | between ho hb hb' hc =>
      obtain ⟨_, hbound⟩ := walk_bound _ _ hb
      obtain ⟨_, hbound'⟩ := walk_bound _ _ hb'
      exact .cons (.opening ho)
        (hbound.append (.cons .comma (hbound'.append (Step.closing hc (Or.inl rfl)).walk)))

/-- **A list of ranges can be walked through.** -/
theorem AreRanges.walk (h : AreRanges cs) : Walk .outside cs .outside := by
  induction h with
  | last hr => exact hr.walk
  | cons hr hs ht hrest ih =>
      exact hr.walk.append ((walk_outside hs).append
        (.cons (.between (Or.inr rfl)) ((walk_outside ht).append ih)))

/-! ## What steps and walks say -/

/-- How many of the brackets of a text are open at its end, if it is taken alone. -/
def depth (cs : List Char) : Int :=
  (cs.countP (· ∈ openings) : Int) - cs.countP (· ∈ closings)

def Place.depth : Place → Int
  | .outside => 0
  | .inside .. => 1

theorem depth_cons (c : Char) (cs : List Char) : depth (c :: cs) = depth [c] + depth cs := by
  have happend : c :: cs = [c] ++ cs := rfl
  rw [happend, depth, depth, depth, List.countP_append, List.countP_append]
  omega

theorem depth_of_notMem (ho : c ∉ openings) (hc : c ∉ closings) : depth [c] = 0 := by
  simp [depth, ho, hc]

theorem depth_of_opening (h : c ∈ openings) : depth [c] = 1 := by
  have hall : openings.all (depth [·] == 1) = true := by decide
  exact eq_of_beq (List.all_eq_true.mp hall c h)

theorem depth_of_closing (h : c ∈ closings) : depth [c] = -1 := by
  have hall : closings.all (depth [·] == -1) = true := by decide
  exact eq_of_beq (List.all_eq_true.mp hall c h)

theorem depth_of_blank (h : isBlank c = true) : depth [c] = 0 := by
  have hmark := notMem_marks_of_blank h
  exact depth_of_notMem (fun ho => hmark (mem_marks_of_opening ho))
    fun hc => hmark (mem_marks_of_closing hc)

theorem depth_of_wordChar (h : IsWordChar c) : depth [c] = 0 :=
  depth_of_notMem (fun ho => h.notMark (mem_marks_of_opening ho))
    fun hc => h.notMark (mem_marks_of_closing hc)

/-- A step changes the depth as its character does. -/
theorem Step.depth_eq (h : Step p c q) : p.depth + depth [c] = q.depth := by
  cases h with
  | between h =>
      rcases h with h | rfl
      · rw [depth_of_blank h]
        rfl
      · rfl
  | opening h =>
      rw [depth_of_opening h]
      rfl
  | blank h =>
      rw [depth_of_blank h]
      rfl
  | word h =>
      rw [depth_of_wordChar h]
      rfl
  | comma => rfl
  | closing h =>
      rw [depth_of_closing h]
      rfl

theorem Walk.depth_eq (h : Walk p cs q) : p.depth + depth cs = q.depth := by
  induction h with
  | nil => exact Int.add_zero _
  | cons hstep _ ih => rw [depth_cons, ← Int.add_assoc, hstep.depth_eq, ih]

/-- Where a bracket opens, none is open. -/
theorem Step.of_opening (h : Step p c q) (hc : c ∈ openings) :
    p = .outside ∧ q = .inside (c == '(') false .before := by
  cases h with
  | between h =>
      rcases h with h | rfl
      · exact absurd (mem_marks_of_opening hc) (notMem_marks_of_blank h)
      · exact absurd hc (by decide)
  | opening => exact ⟨rfl, rfl⟩
  | blank h => exact absurd (mem_marks_of_opening hc) (notMem_marks_of_blank h)
  | word h => exact absurd (mem_marks_of_opening hc) h.notMark
  | comma => exact absurd hc (by decide)
  | closing h => exact absurd h (notMem_closings_of_opening hc)

/-- Where a bracket closes, one is open: behind a comma, or between square brackets. -/
theorem Step.of_closing (h : Step p c q) (hc : c ∈ closings) :
    ∃ round comma phase, p = .inside round comma phase ∧
      (comma = true ∨ c = ']' ∧ round = false) := by
  cases h with
  | between h =>
      rcases h with h | rfl
      · exact absurd (mem_marks_of_closing hc) (notMem_marks_of_blank h)
      · exact absurd hc (by decide)
  | opening h => exact absurd hc (notMem_closings_of_opening h)
  | blank h => exact absurd (mem_marks_of_closing hc) (notMem_marks_of_blank h)
  | word h => exact absurd (mem_marks_of_closing hc) h.notMark
  | comma => exact absurd hc (by decide)
  | closing _ hcomma => exact ⟨_, _, _, rfl, hcomma⟩

/-- A word stands inside a range, and does not begin again behind blanks. -/
theorem Step.of_wordChar (h : Step p c q) (hc : IsWordChar c) :
    ∃ round comma phase, p = .inside round comma phase ∧ phase ≠ .behind ∧
      q = .inside round comma .within := by
  cases h with
  | between h =>
      rcases h with h | rfl
      · exact absurd hc (not_isWordChar_of_blank h)
      · exact absurd hc.notMark (by decide)
  | opening h => exact absurd (mem_marks_of_opening h) hc.notMark
  | blank h => exact absurd hc (not_isWordChar_of_blank h)
  | word _ hphase => exact ⟨_, _, _, rfl, hphase, rfl⟩
  | comma => exact absurd hc.notMark (by decide)
  | closing h => exact absurd (mem_marks_of_closing h) hc.notMark

/-- Without a comma, a walk stays in the range that a round bracket began. -/
theorem Walk.stays (h : Walk p cs q) {phase : Phase} (hp : p = .inside true false phase)
    (hcomma : ',' ∉ cs) : ∃ phase', q = .inside true false phase' := by
  induction h generalizing phase with
  | nil => exact ⟨phase, hp⟩
  | cons hstep _ ih =>
      subst hp
      have hrest := fun hmem => hcomma (List.mem_cons_of_mem _ hmem)
      cases hstep with
      | blank => exact ih rfl hrest
      | word => exact ih rfl hrest
      | comma => exact absurd (List.mem_cons_self ..) hcomma
      | closing _ hclose =>
          rcases hclose with h | ⟨-, h⟩
          · cases h
          · cases h

/-- Behind a word, blanks lead to where no word may begin. -/
theorem Walk.behind (h : Walk p cs q) {round comma : Bool} {phase : Phase}
    (hp : p = .inside round comma phase) (hphase : phase ≠ .before) (hcs : AreBlanks cs)
    (hne : cs ≠ []) : q = .inside round comma .behind := by
  induction h generalizing phase with
  | nil => exact absurd rfl hne
  | @cons p p' q c cs hstep hrest ih =>
      subst hp
      have hc := hcs c (by simp)
      have hnext : p' = .inside round comma phase.afterBlank := by
        cases hstep with
        | blank => rfl
        | word h => exact absurd h (not_isWordChar_of_blank hc)
        | comma => exact absurd hc (by decide)
        | closing h => exact absurd (mem_marks_of_closing h) (notMem_marks_of_blank hc)
      have hbehind : phase.afterBlank = .behind := by
        cases phase with
        | before => exact absurd rfl hphase
        | within => rfl
        | behind => rfl
      rw [hbehind] at hnext
      cases cs with
      | nil =>
          cases hrest
          exact hnext
      | cons x xs =>
          exact ih hnext nofun (fun y hy => hcs y (List.mem_cons_of_mem _ hy)) (by simp)

/-! ## What a list of ranges never has -/

/-- Brackets are closed and not nested, and what a pair of round ones encloses has a comma. -/
structure IsBracketed (cs : List Char) : Prop where
  opens : ∀ before c after, cs = before ++ c :: after → c ∈ openings → depth before = 0
  closes : ∀ before c after, cs = before ++ c :: after → c ∈ closings → depth before = 1
  ends : depth cs = 0
  round : ∀ before b after, cs = before ++ '(' :: (b ++ ')' :: after) → ',' ∈ b

/-- The place of a character in a text that can be walked through. -/
theorem Walk.at {before after : List Char} (h : Walk .outside (before ++ c :: after) q) :
    ∃ p p', Walk .outside before p ∧ Step p c p' ∧ Walk p' after q ∧ p.depth = depth before := by
  obtain ⟨p, hbefore, hrest⟩ := walk_append_iff.mp h
  cases hrest with
  | cons hstep hafter =>
      have hdepth := hbefore.depth_eq
      exact ⟨p, _, hbefore, hstep, hafter, hdepth.symm.trans (Int.zero_add _)⟩

theorem AreRanges.isBracketed (h : AreRanges cs) : IsBracketed cs where
  opens := by
    rintro before c after rfl hc
    obtain ⟨p, _, -, hstep, -, hdepth⟩ := h.walk.at
    rw [← hdepth, (hstep.of_opening hc).1]
    rfl
  closes := by
    rintro before c after rfl hc
    obtain ⟨p, _, -, hstep, -, hdepth⟩ := h.walk.at
    obtain ⟨_, _, _, rfl, -⟩ := hstep.of_closing hc
    exact hdepth.symm
  ends := by
    have hdepth := h.walk.depth_eq
    exact (Int.zero_add _).symm.trans hdepth
  round := by
    rintro before b after rfl
    by_contra hcomma
    obtain ⟨_, p, -, hopen, hrest, -⟩ := h.walk.at
    obtain ⟨-, rfl⟩ := hopen.of_opening (by decide)
    obtain ⟨p', hwalk, hrest⟩ := walk_append_iff.mp hrest
    -- without its comma, the range that a round bracket began cannot be left by one
    obtain ⟨_, rfl⟩ := hwalk.stays rfl hcomma
    cases hrest with
    | cons hclose =>
        obtain ⟨_, _, _, hplace, hclose⟩ := hclose.of_closing (by decide)
        cases hplace
        rcases hclose with h | ⟨h, -⟩
        · cases h
        · exact absurd h (by decide)

/-- No version stands outside the ranges. -/
theorem AreRanges.depth_of_wordChar (h : AreRanges cs) {before after : List Char}
    (hcs : cs = before ++ c :: after) (hc : IsWordChar c) : depth before = 1 := by
  subst hcs
  obtain ⟨p, _, -, hstep, -, hdepth⟩ := h.walk.at
  obtain ⟨_, _, _, rfl, -, -⟩ := hstep.of_wordChar hc
  exact hdepth.symm

/-- Blanks stand between two characters of a word. -/
def SplitsWord (cs : List Char) : Prop :=
  ∃ before c blanks d after, cs = before ++ c :: (blanks ++ d :: after) ∧ IsWordChar c ∧
    AreBlanks blanks ∧ blanks ≠ [] ∧ IsWordChar d

/-- No walk leads over a word that blanks split. -/
theorem Walk.not_splitsWord (h : Walk p cs q) : ¬ SplitsWord cs := by
  rintro ⟨before, c, blanks, d, after, rfl, hc, hblanks, hne, hd⟩
  obtain ⟨_, -, hrest⟩ := walk_append_iff.mp h
  cases hrest with
  | cons hfirst hrest =>
      obtain ⟨round, comma, -, -, -, rfl⟩ := hfirst.of_wordChar hc
      obtain ⟨_, hwalk, hrest⟩ := walk_append_iff.mp hrest
      -- blanks lead from within the word to behind it, where no word begins
      obtain rfl := hwalk.behind rfl nofun hblanks hne
      cases hrest with
      | cons hsecond =>
          obtain ⟨_, _, _, hplace, hphase, -⟩ := hsecond.of_wordChar hd
          cases hplace
          exact hphase rfl

/-- A version has no brackets at all. -/
theorem IsPlain.isBracketed (h : IsPlain cs) : IsBracketed cs := by
  have hmark : ∀ c ∈ cs, c ∉ marks := fun c hc => (h.word c hc).notMark
  have hopen : ∀ c ∈ cs, c ∉ openings := fun c hc ho => hmark c hc (mem_marks_of_opening ho)
  have hclose : ∀ c ∈ cs, c ∉ closings := fun c hc hc' => hmark c hc (mem_marks_of_closing hc')
  refine ⟨?_, ?_, ?_, ?_⟩
  · rintro before c after rfl hc
    exact absurd hc (hopen c (by simp))
  · rintro before c after rfl hc
    exact absurd hc (hclose c (by simp))
  · have hcount : ∀ set : List Char, (∀ c ∈ cs, c ∉ set) → cs.countP (· ∈ set) = 0 := by
      intro set hset
      exact List.countP_eq_zero.mpr fun c hc => by simpa using hset c hc
    rw [depth, hcount openings hopen, hcount closings hclose]
    rfl
  · rintro before b after rfl
    exact absurd (hopen '(' (by simp)) (by decide)

/-- The two forms exclude each other, since ranges have brackets and versions have none. -/
theorem IsPlain.not_areRanges (h : IsPlain cs) : ¬ AreRanges cs := by
  intro hranges
  obtain ⟨o, inner, c, rfl, ho, -⟩ := hranges.ends
  exact (h.word o (by simp)).notMark (mem_marks_of_opening ho)

end SourceEdit.Version
