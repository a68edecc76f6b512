import SourceEdit.Yaml.Cursor

/-!
# Cursors in front of a marker

A text that is followed by the line of a document marker is read without regard to what comes after
that line. A reader starts strictly before the last line end (`Inside`), and stops there or at the
marker itself (`Before`). `Agrees` compares a reading of the text with one of the text and more:
both fail, or both give the same value and stop at the same place.
-/

namespace SourceEdit.Yaml

variable {α β : Type}

def markerLine : List Char := ['-', '-', '-', '\n']

/-- The second reading is the first one carried over by `ext`, and what it gives satisfies `P`. -/
def Agrees (ext : α → α) (P : α → Prop) (short long : Option α) : Prop :=
  long = short.map ext ∧ ∀ a, short = some a → P a

namespace Agrees

variable {ext : α → α} {ext' : β → β} {P Q : α → Prop} {R : β → Prop} {x y x' y' : Option α}

theorem none : Agrees ext P none none :=
  ⟨rfl, fun _ h => absurd h (by simp)⟩

theorem some {a : α} (h : P a) : Agrees ext P (some a) (some (ext a)) := by
  refine ⟨rfl, fun b hb => ?_⟩
  obtain rfl := Option.some.inj hb
  exact h

theorem mono (h : Agrees ext P x y) (hPQ : ∀ a, P a → Q a) : Agrees ext Q x y :=
  ⟨h.1, fun a ha => hPQ a (h.2 a ha)⟩

theorem bind {f g : α → Option β} (h : Agrees ext P x y)
    (hfg : ∀ a, P a → Agrees ext' R (f a) (g (ext a))) :
    Agrees ext' R (x.bind f) (y.bind g) := by
  obtain ⟨rfl, hP⟩ := h
  cases x with
  | none => exact Agrees.none
  | some a => exact hfg a (hP a rfl)

theorem ite {p : Prop} [Decidable p] (hpos : p → Agrees ext P x y)
    (hneg : ¬ p → Agrees ext P x' y') :
    Agrees ext P (if p then x else x') (if p then y else y') := by
  by_cases h : p
  · rw [if_pos h, if_pos h]
    exact hpos h
  · rw [if_neg h, if_neg h]
    exact hneg h

/-- The same value is put in front of the readings. -/
theorem bind_same {o : Option β} {f g : β → Option α}
    (hfg : ∀ b, o = Option.some b → Agrees ext P (f b) (g b)) :
    Agrees ext P (o.bind f) (o.bind g) := by
  cases o with
  | none => exact Agrees.none
  | some b => exact hfg b rfl

end Agrees

namespace Cursor

def extend (more : List Char) (c : Cursor) : Cursor := { c with rest := c.rest ++ more }

/-- Before the end of the line in front of the marker. -/
def Inside (c : Cursor) : Prop := ∃ r, c.rest = r ++ '\n' :: markerLine

def AtMarker (c : Cursor) : Prop := c.rest = markerLine ∧ c.column = 0

def Before (c : Cursor) : Prop := c.Inside ∨ c.AtMarker

/-- The second place lies at least `n` characters behind the first, and on no earlier line. -/
structure Ahead (n : Nat) (c c' : Cursor) : Prop where
  line : c.line ≤ c'.line
  length : c'.rest.length + n ≤ c.rest.length

variable {c c' c'' : Cursor} {more text : List Char} {m n : Nat} {x : Char} {p : Char → Bool}

theorem Ahead.refl : Ahead 0 c c := ⟨Nat.le_refl _, Nat.le_refl _⟩

theorem Ahead.trans (h : Ahead m c c') (h' : Ahead n c' c'') : Ahead (m + n) c c'' := by
  refine ⟨Nat.le_trans h.line h'.line, ?_⟩
  have hlength := h.length
  have hlength' := h'.length
  omega

theorem Ahead.weaken (h : Ahead n c c') (hmn : m ≤ n) : Ahead m c c' :=
  ⟨h.line, Nat.le_trans (Nat.add_le_add_left hmn _) h.length⟩

/-! ## Looking ahead -/

theorem Inside.before (h : c.Inside) : c.Before := Or.inl h

/-- At least two characters stand in front of what a reader inside may not touch. -/
theorem Inside.rest_eq_cons (h : c.Inside) : ∃ x y rest, c.rest = x :: y :: rest := by
  obtain ⟨r, hr⟩ := h
  match r with
  | [] => exact ⟨_, _, _, hr⟩
  | [x] => exact ⟨_, _, _, hr⟩
  | x :: y :: r => exact ⟨_, _, _, hr⟩

theorem Before.length_le (h : c.Before) : 4 ≤ c.rest.length := by
  rcases h with ⟨r, hr⟩ | ⟨hr, _⟩
  · rw [hr, List.length_append]
    simp [markerLine]
  · rw [hr]
    decide

theorem Before.rest_eq_cons (h : c.Before) : ∃ x rest, c.rest = x :: rest := by
  have hlength := h.length_le
  cases hrest : c.rest with
  | nil => rw [hrest] at hlength; exact absurd hlength (by decide)
  | cons x rest => exact ⟨x, rest, rfl⟩

theorem Before.peek_eq_some (h : c.Before) : ∃ x, c.peek = some x := by
  obtain ⟨x, rest, hrest⟩ := h.rest_eq_cons
  exact ⟨x, by rw [peek, hrest]; rfl⟩

theorem Before.peek_isNone (h : c.Before) : c.peek.isNone = false := by
  obtain ⟨x, hx⟩ := h.peek_eq_some
  rw [hx]
  rfl

theorem Before.peekAt_extend (h : c.Before) (hn : n ≤ 3) :
    (c.extend more).peekAt n = c.peekAt n := by
  have hlength := h.length_le
  exact List.getElem?_append_left (by omega)

theorem Before.peek_extend (h : c.Before) : (c.extend more).peek = c.peek := by
  obtain ⟨x, rest, hrest⟩ := h.rest_eq_cons
  rw [peek, peek, extend, hrest]
  rfl

theorem Before.atMarker_extend (h : c.Before) (mark : Char) :
    (c.extend more).atMarker mark = c.atMarker mark := by
  rw [atMarker, atMarker, h.peek_extend, h.peekAt_extend (by decide), h.peekAt_extend (by decide),
    h.peekAt_extend (by decide)]
  rfl

theorem Before.atDocumentMarker_extend (h : c.Before) :
    (c.extend more).atDocumentMarker = c.atDocumentMarker := by
  rw [atDocumentMarker, atDocumentMarker, h.atMarker_extend, h.atMarker_extend]

theorem AtMarker.peek_eq (h : c.AtMarker) : c.peek = some '-' := by
  rw [peek, h.1]
  rfl

theorem AtMarker.atMarker_eq (h : c.AtMarker) : c.atMarker '-' = true := by
  obtain ⟨rest, index, line, column⟩ := c
  obtain ⟨hrest, hcolumn⟩ := h
  obtain rfl : rest = markerLine := hrest
  obtain rfl : column = 0 := hcolumn
  rfl

theorem AtMarker.atDocumentMarker_eq (h : c.AtMarker) : c.atDocumentMarker = true := by
  rw [atDocumentMarker, h.atMarker_eq, Bool.true_or]

/-- A cursor that sees something else than the marker is inside. -/
theorem Before.inside (h : c.Before) (hne : c.peek ≠ some '-') : c.Inside := by
  rcases h with h | h
  · exact h
  · exact absurd h.peek_eq hne

theorem Before.inside_of_notMarker (h : c.Before) (hne : c.atDocumentMarker = false) :
    c.Inside := by
  rcases h with h | h
  · exact h
  · rw [h.atDocumentMarker_eq] at hne
    exact absurd hne (by decide)

theorem Before.inside_of_gap (h : c.Before) (hx : c.peek = some x)
    (hgap : (isBlank x || isBreak x) = true) : c.Inside := by
  refine h.inside fun hdash => ?_
  rw [hx] at hdash
  obtain rfl := Option.some.inj hdash
  exact absurd hgap (by decide)

theorem extend_length_le : c.rest.length ≤ (c.extend more).rest.length := by
  rw [extend, List.length_append]
  exact Nat.le_add_right _ _

theorem peek_eq_some_iff : c.peek = some x ↔ ∃ rest, c.rest = x :: rest := by
  rw [peek, List.head?_eq_some_iff]

theorem peek_of_rest (hrest : c.rest = x :: text) : c.peek = some x :=
  peek_eq_some_iff.mpr ⟨text, hrest⟩

theorem peekAt_one_of_rest (hrest : c.rest = x :: text) : c.peekAt 1 = text.head? := by
  rw [peekAt, hrest, List.getElem?_cons_succ, List.head?_eq_getElem?]

theorem skip_of_rest (hrest : c.rest = x :: text) :
    c.skip = ⟨text, c.index + 1, c.line, c.column + 1⟩ := by
  rw [Cursor.skip, hrest]

theorem skipBreak_of_rest (hrest : c.rest = '\n' :: text) :
    c.skipBreak = ⟨text, c.index + 1, c.line + 1, 0⟩ := by
  rw [Cursor.skipBreak, hrest]
  rfl

/-! ## Stepping over characters -/

theorem Inside.skip_extend (h : c.Inside) : (c.extend more).skip = c.skip.extend more := by
  obtain ⟨x, y, rest, hrest⟩ := h.rest_eq_cons
  simp only [skip, extend, hrest, List.cons_append]

theorem Inside.ahead_skip (h : c.Inside) : Ahead 1 c c.skip := by
  obtain ⟨x, y, rest, hrest⟩ := h.rest_eq_cons
  constructor
  · simp only [Cursor.skip, hrest, Nat.le_refl]
  · simp only [Cursor.skip, hrest, List.length_cons, Nat.le_refl]

theorem Inside.peek_skip (h : c.Inside) : c.skip.peek = c.peekAt 1 := by
  obtain ⟨x, y, rest, hrest⟩ := h.rest_eq_cons
  simp only [Cursor.skip, peek, peekAt, hrest]
  rfl

theorem Inside.peek_skip_extend (h : c.Inside) : (c.skip.extend more).peek = c.skip.peek := by
  obtain ⟨x, y, rest, hrest⟩ := h.rest_eq_cons
  simp only [Cursor.skip, peek, extend, hrest]
  rfl

/-- Only a step over the last line end leaves the inside. -/
theorem Inside.skip (h : c.Inside) (hx : c.peek = some x) (hbreak : isBreak x = false) :
    c.skip.Inside := by
  obtain ⟨r, hr⟩ := h
  cases r with
  | nil =>
      rw [peek, hr] at hx
      obtain rfl : '\n' = x := Option.some.inj hx
      exact absurd hbreak (by decide)
  | cons y r =>
      refine ⟨r, ?_⟩
      simp only [Cursor.skip, hr, List.cons_append]

theorem skipMany_eq (h : n ≤ c.rest.length) : c.skipMany n =
    { c with rest := c.rest.drop n, index := c.index + n, column := c.column + n } := by
  induction n generalizing c with
  | zero => rfl
  | succ n ih =>
      cases hrest : c.rest with
      | nil => rw [hrest] at h; exact absurd h (by simp)
      | cons x rest =>
          have hlength : n ≤ c.skip.rest.length := by
            simp only [Cursor.skip, hrest]
            rw [hrest] at h
            simpa using h
          rw [skipMany, ih hlength]
          simp only [Cursor.skip, hrest, List.drop_succ_cons]
          congr 1 <;> omega

theorem skipMany_extend (h : n ≤ c.rest.length) :
    (c.extend more).skipMany n = (c.skipMany n).extend more := by
  have hlength : n ≤ (c.extend more).rest.length := by
    simp only [extend, List.length_append]
    omega
  rw [skipMany_eq hlength, skipMany_eq h]
  simp only [extend, List.drop_append_of_le_length h]

theorem ahead_skipMany (h : n ≤ c.rest.length) : Ahead n c (c.skipMany n) := by
  rw [skipMany_eq h]
  constructor
  · exact Nat.le_refl _
  · show (c.rest.drop n).length + n ≤ c.rest.length
    rw [List.length_drop]
    omega

/-- Stepping over characters before the last line end. -/
theorem inside_skipMany (more : List Char) {r : List Char} (h : c.rest = r ++ '\n' :: markerLine)
    (hn : n ≤ r.length) : (c.skipMany n).Inside ∧ Ahead n c (c.skipMany n) ∧
      (c.extend more).skipMany n = (c.skipMany n).extend more := by
  have hlength : n ≤ c.rest.length := by
    rw [h, List.length_append]
    omega
  refine ⟨⟨r.drop n, ?_⟩, ahead_skipMany hlength, skipMany_extend hlength⟩
  rw [skipMany_eq hlength, h]
  exact List.drop_append_of_le_length hn

/-! ## Line ends -/

theorem Before.breakText_extend (h : c.Before) : (c.extend more).breakText = c.breakText := by
  obtain ⟨x, rest, hrest⟩ := h.rest_eq_cons
  simp only [breakText, extend, hrest, List.cons_append]

theorem skipBreak_cons {y : Char} {rest : List Char} (h : c.rest = x :: y :: rest) :
    c.skipBreak =
      if x = '\r' ∧ y = '\n' then ⟨rest, c.index + 2, c.line + 1, 0⟩
      else if isBreak x then ⟨y :: rest, c.index + 1, c.line + 1, 0⟩
      else c := by
  unfold skipBreak
  split
  · next rest' hrest =>
    rw [h] at hrest
    obtain ⟨rfl, htail⟩ := List.cons.inj hrest
    obtain ⟨rfl, rfl⟩ := List.cons.inj htail
    rw [if_pos ⟨rfl, rfl⟩]
  · next z rest' hne hrest =>
    rw [h] at hrest
    obtain ⟨rfl, rfl⟩ := List.cons.inj hrest
    have hpair : ¬ (x = '\r' ∧ y = '\n') := by
      rintro ⟨rfl, rfl⟩
      exact hne rest rfl rfl
    rw [if_neg hpair]
  · next hnil =>
    rw [h] at hnil
    exact absurd hnil (by simp)

theorem Inside.skipBreak_extend (h : c.Inside) :
    (c.extend more).skipBreak = c.skipBreak.extend more := by
  obtain ⟨x, y, rest, hrest⟩ := h.rest_eq_cons
  have hlong : (c.extend more).rest = x :: y :: (rest ++ more) := by
    rw [extend, hrest]
    rfl
  rw [skipBreak_cons hrest, skipBreak_cons hlong]
  split
  · rfl
  · split <;> rfl

theorem Inside.ahead_skipBreak (h : c.Inside) : Ahead 0 c c.skipBreak := by
  obtain ⟨x, y, rest, hrest⟩ := h.rest_eq_cons
  rw [skipBreak_cons hrest]
  split
  · exact ⟨Nat.le_succ _, by simp only [hrest, List.length_cons]; omega⟩
  · split
    · exact ⟨Nat.le_succ _, by simp only [hrest, List.length_cons]; omega⟩
    · exact Ahead.refl

theorem Inside.ahead_skipBreak_of_isBreak (h : c.Inside) (hx : c.peek = some x)
    (hbreak : isBreak x = true) : Ahead 1 c c.skipBreak := by
  obtain ⟨z, y, rest, hrest⟩ := h.rest_eq_cons
  obtain rfl : z = x := by
    rw [peek, hrest] at hx
    exact Option.some.inj hx
  rw [skipBreak_cons hrest, if_pos hbreak]
  split
  · exact ⟨Nat.le_succ _, by simp only [hrest, List.length_cons]; omega⟩
  · exact ⟨Nat.le_succ _, by simp only [hrest, List.length_cons, Nat.le_refl]⟩

/-- A line end is stepped over as a whole. -/
theorem Inside.skipBreak (h : c.Inside) : c.skipBreak.Before := by
  obtain ⟨r, hr⟩ := h
  match r with
  | [] =>
      rw [skipBreak_cons hr]
      exact Or.inr ⟨rfl, rfl⟩
  | [x] =>
      rw [skipBreak_cons hr]
      split
      · exact Or.inr ⟨rfl, rfl⟩
      · split
        · exact Or.inl ⟨[], rfl⟩
        · exact Or.inl ⟨[x], hr⟩
  | x :: y :: r =>
      rw [skipBreak_cons hr]
      split
      · exact Or.inl ⟨r, rfl⟩
      · split
        · exact Or.inl ⟨y :: r, rfl⟩
        · exact Or.inl ⟨x :: y :: r, hr⟩

/-! ## Stretches within a line -/

theorem takeWhile_lineEnd (hp : p '\n' = false) (r t : List Char) :
    (r ++ '\n' :: t).takeWhile p = r.takeWhile p := by
  induction r with
  | nil => rw [List.nil_append, List.takeWhile_cons_of_neg (by simp [hp])]; rfl
  | cons x r ih =>
      by_cases hx : p x = true
      · rw [List.cons_append, List.takeWhile_cons_of_pos hx, ih, List.takeWhile_cons_of_pos hx]
      · rw [List.cons_append, List.takeWhile_cons_of_neg hx, List.takeWhile_cons_of_neg hx]

theorem Inside.spanText_extend (h : c.Inside) (hp : p '\n' = false) :
    (c.extend more).spanText p = c.spanText p := by
  obtain ⟨r, hr⟩ := h
  rw [spanText, spanText, extend, hr, List.append_assoc]
  exact (takeWhile_lineEnd hp r _).trans (takeWhile_lineEnd hp r _).symm

theorem length_takeWhile_le (l : List Char) : (l.takeWhile p).length ≤ l.length :=
  (List.takeWhile_sublist p).length_le

theorem skipWhile_eq_skipMany : c.skipWhile p = c.skipMany (c.spanText p).length :=
  (skipMany_eq (length_takeWhile_le c.rest)).symm

theorem Inside.skipWhile_extend (h : c.Inside) (hp : p '\n' = false) :
    (c.extend more).skipWhile p = (c.skipWhile p).extend more := by
  rw [skipWhile_eq_skipMany, skipWhile_eq_skipMany, h.spanText_extend hp]
  exact skipMany_extend (length_takeWhile_le c.rest)

theorem ahead_skipWhile : Ahead (c.spanText p).length c (c.skipWhile p) := by
  rw [skipWhile_eq_skipMany]
  exact ahead_skipMany (length_takeWhile_le c.rest)

/-- A stretch that holds no line ends stays inside. -/
theorem Inside.skipWhile (h : c.Inside) (hp : p '\n' = false) : (c.skipWhile p).Inside := by
  obtain ⟨r, hr⟩ := h
  have hspan : c.spanText p = r.takeWhile p := by
    rw [spanText, hr]
    exact takeWhile_lineEnd hp r _
  rw [skipWhile_eq_skipMany, hspan]
  exact (inside_skipMany [] hr (length_takeWhile_le r)).1

/-- A stretch is empty where a character does not satisfy the condition. -/
theorem skipWhile_of_peek (hx : c.peek = some x) (hp : p x = false) : c.skipWhile p = c := by
  obtain ⟨rest, hrest⟩ := peek_eq_some_iff.mp hx
  have hspan : c.spanText p = [] := by
    rw [spanText, hrest, List.takeWhile_cons_of_neg (by rw [hp]; exact Bool.false_ne_true)]
  rw [skipWhile_eq_skipMany, hspan]
  rfl

/-- A stretch stops where a character does not satisfy the condition. -/
theorem Inside.peek_skipWhile (h : c.Inside) (hp : p '\n' = false) :
    ∃ x, (c.skipWhile p).peek = some x ∧ p x = false := by
  obtain ⟨x, hx⟩ := (h.skipWhile hp).before.peek_eq_some
  refine ⟨x, hx, ?_⟩
  have hdrop : (c.skipWhile p).rest = c.rest.dropWhile p :=
    calc c.rest.drop (c.rest.takeWhile p).length
        = (c.rest.takeWhile p ++ c.rest.dropWhile p).drop (c.rest.takeWhile p).length := by
          rw [List.takeWhile_append_dropWhile]
      _ = c.rest.dropWhile p := List.drop_left
  have hnot := List.head?_dropWhile_not p c.rest
  rw [peek, hdrop] at hx
  rw [hx] at hnot
  exact hnot

/-! ## Readings that give a value -/

theorem agrees_place {P : α × Cursor → Prop} {a : α} (h : P (a, c)) :
    Agrees (Prod.map id (extend more)) P (some (a, c)) (some (a, c.extend more)) :=
  Agrees.some (a := (a, c)) h

theorem agrees_farPlace {P : α × β × Cursor → Prop} {a : α} {b : β} (h : P (a, b, c)) :
    Agrees (Prod.map id (Prod.map id (extend more))) P (some (a, b, c))
      (some (a, b, c.extend more)) :=
  Agrees.some (a := (a, b, c)) h

/-! ## Comments and ends of lines -/

theorem skipComment_of_peek (hx : c.peek = some x) (hne : x ≠ '#') : c.skipComment = c := by
  rw [skipComment, hx, if_neg]
  rw [beq_iff_eq, Option.some.injEq]
  exact hne

theorem Inside.skipComment_extend (h : c.Inside) :
    (c.extend more).skipComment = c.skipComment.extend more := by
  rw [skipComment, skipComment, h.before.peek_extend]
  split
  · exact h.skipWhile_extend (by decide)
  · rfl

theorem Inside.skipComment (h : c.Inside) : c.skipComment.Inside ∧ Ahead 0 c c.skipComment := by
  rw [Cursor.skipComment]
  split
  · exact ⟨h.skipWhile (by decide), ahead_skipWhile.weaken (Nat.zero_le _)⟩
  · exact ⟨h, Ahead.refl⟩

theorem Inside.finishLine? (h : c.Inside) :
    Agrees (extend more) (fun c' => c'.Before ∧ Ahead 0 c c') c.finishLine?
      (c.extend more).finishLine? := by
  have hblank := h.skipWhile (p := isBlank) (by decide)
  obtain ⟨hcomment, hahead⟩ := hblank.skipComment
  unfold Cursor.finishLine?
  dsimp only
  rw [h.skipWhile_extend (by decide), hblank.skipComment_extend, hcomment.before.peek_extend,
    hcomment.skipBreak_extend]
  refine Agrees.ite (fun _ => Agrees.some ⟨hcomment.skipBreak, ?_⟩) (fun _ => Agrees.none)
  exact ((ahead_skipWhile.weaken (Nat.zero_le _)).trans hahead).trans hcomment.ahead_skipBreak

end Cursor

end SourceEdit.Yaml
