import SourceEdit.Proofs.Glob.Part

/-!
# Globs of steps

A glob made of steps with slashes between them is read part by part. `afterStep` is what one step
adds to the tokens, and `Closes` their meaning at a slash: the tokens so far stand for the parts
that the steps so far match, with a slash after each. `**` between slashes takes the place of the
slash before it, and adds any parts to those matched; `Closes.foldl_afterStep` carries the invariant
over the steps.
-/

namespace SourceEdit.Glob

open ReaderState

/-- Characters that a step may hold: none that separates steps, opens a class or alternatives, or
makes another one literal. -/
def IsStepChar (c : Char) : Prop :=
  c ≠ '/' ∧ c ≠ '[' ∧ c ≠ '\x7b' ∧ c ≠ '\x7d' ∧ c ≠ '\\'

/-- A step: not empty, and of plain characters and wildcards. -/
def IsStep (s : List Char) : Prop := s ≠ [] ∧ ∀ c ∈ s, IsStepChar c

instance (c : Char) : Decidable (IsStepChar c) :=
  inferInstanceAs (Decidable (_ ∧ _))

instance (s : List Char) : Decidable (IsStep s) :=
  @instDecidableAnd _ _ inferInstance (List.decidableBAll IsStepChar s)

theorem isStep_concat_anyParts {ss : List (List Char)} (hss : ∀ s ∈ ss, IsStep s) :
    ∀ s ∈ ss ++ [anyParts], IsStep s := by
  intro s hs
  rcases List.mem_append.mp hs with hs | hs
  · exact hss s hs
  · rw [List.mem_singleton.mp hs]
    exact ⟨by simp [anyParts], by simp [anyParts, IsStepChar]⟩

/-! ## Reading within a part -/

/-- The reader outside of alternatives, after some tokens and a last character. -/
def place (current : List Token) (last : Option Char) : ReaderState :=
  { inner := { current }, last }

theorem step_place {c : Char} (hc : c = '/' ∨ IsStepChar c) (hstar : c ≠ '*')
    (current : List Token) (last : Option Char) (cs : List Char) :
    (place current last).step false c cs = .ok (place (partToken c :: current) (some c), cs) := by
  have hplain : c ≠ '[' ∧ c ≠ '\x7b' ∧ c ≠ '\x7d' ∧ c ≠ '\\' := by
    rcases hc with rfl | hc
    · decide
    · exact hc.2
  obtain ⟨h1, h2, h3, h4⟩ := hplain
  unfold ReaderState.step
  split
  · rfl
  · exact absurd rfl hstar
  · exact absurd rfl h1
  · exact absurd rfl h2
  · exact absurd rfl h3
  · rfl
  · exact absurd rfl h4
  · next hany _ _ _ _ _ _ =>
    rw [partToken, if_neg hstar, if_neg hany]
    rfl

/-- How the reader goes on after some text: with any fuel that covers the text and what follows,
it comes to another state with fuel that covers what follows. -/
def Reads (s : ReaderState) (text rest : List Char) (s' : ReaderState) : Prop :=
  ∀ fuel, (text ++ rest).length ≤ fuel → ∃ fuel', rest.length ≤ fuel' ∧
    run false fuel s (text ++ rest) = run false fuel' s' rest

theorem Reads.refl (s : ReaderState) (rest : List Char) : Reads s [] rest s :=
  fun fuel h => ⟨fuel, h, rfl⟩

theorem Reads.trans {s s' s'' : ReaderState} {a b rest : List Char}
    (h₁ : Reads s a (b ++ rest) s') (h₂ : Reads s' b rest s'') : Reads s (a ++ b) rest s'' := by
  intro fuel hfuel
  rw [List.append_assoc] at hfuel ⊢
  obtain ⟨fuel', hle, heq⟩ := h₁ fuel hfuel
  obtain ⟨fuel'', hle', heq'⟩ := h₂ fuel' hle
  exact ⟨fuel'', hle', by rw [heq, heq']⟩

theorem Reads.of_step {s s' : ReaderState} {c : Char} {cs rest : List Char}
    (h : s.step false c (cs ++ rest) = .ok (s', rest)) : Reads s (c :: cs) rest s' := by
  intro fuel hfuel
  cases fuel with
  | zero => simp at hfuel
  | succ fuel =>
      refine ⟨fuel, by simp at hfuel; omega, ?_⟩
      rw [List.cons_append, run, h]
      rfl

/-- What may follow a step: nothing, or a slash. -/
def EndsStep (rest : List Char) : Prop := rest = [] ∨ ∃ more, rest = '/' :: more

/-- After the first character of a part, `**` is just two stars. -/
theorem doubleStar_inside {current : List Token} {last : Char} (hcur : current ≠ [])
    (hlast : last ≠ '/') (cs : List Char) :
    (place current (some '*')).doubleStar (some last) cs =
      (place (.star :: .star :: current) (some '*'), cs) := by
  cases current with
  | nil => exact absurd rfl hcur
  | cons t ts =>
      unfold doubleStar place
      simp [push, hlast]

/-- At the start of a part, `**` is two stars unless the part ends there. -/
theorem doubleStar_start {current : List Token} {last : Option Char}
    (hstart : current ≠ [] → last = some '/') {c : Char} (hc : c ≠ '/') (cs : List Char) :
    (place current (some '*')).doubleStar last (c :: cs) =
      (place (.star :: .star :: current) (some '*'), c :: cs) := by
  cases current with
  | nil =>
      unfold doubleStar place
      simp only [List.isEmpty_nil, if_true]
      split
      · next heq => exact nomatch heq
      · next heq => exact absurd (List.cons.inj heq).1 hc
      · rfl
  | cons t ts =>
      rw [hstart (by simp)]
      unfold doubleStar place
      simp [push]

theorem step_star {current : List Token} {last : Option Char} {cs : List Char}
    (h : cs.head? ≠ some '*') :
    (place current last).step false '*' cs = .ok (place (.star :: current) (some '*'), cs) := by
  unfold ReaderState.step
  simp only
  split
  · next rest => simp at h
  · rfl

theorem step_doubleStar (current : List Token) (last : Option Char) (cs : List Char) :
    (place current last).step false '*' ('*' :: cs) =
      .ok ((place current (some '*')).doubleStar last cs) := rfl

theorem EndsStep.head?_ne_star {rest : List Char} (h : EndsStep rest) : rest.head? ≠ some '*' := by
  rcases h with rfl | ⟨more, rfl⟩ <;> simp

/-- **Within a part,** every character adds its token. -/
theorem reads_inside : ∀ (cs : List Char) (current : List Token) (last : Char)
    (rest : List Char), (∀ c ∈ cs, IsStepChar c) → current ≠ [] → last ≠ '/' → EndsStep rest →
      ∃ last', last' ≠ '/' ∧ Reads (place current (some last)) cs rest
        (place ((cs.map partToken).reverse ++ current) (some last'))
  | [], _, last, rest, _, _, hlast, _ => ⟨last, hlast, Reads.refl _ rest⟩
  | [c], current, last, rest, hcs, _, _, hrest => by
      refine ⟨c, (hcs c (by simp)).1, Reads.of_step ?_⟩
      by_cases hstar : c = '*'
      · subst hstar
        exact step_star hrest.head?_ne_star
      · exact step_place (Or.inr (hcs c (by simp))) hstar current (some last) rest
  | c :: d :: cs, current, last, rest, hcs, hcur, hlast, hrest => by
      by_cases hstar : c = '*'
      · subst hstar
        -- two stars within a part are read in one step, though they stand for no more than one
        by_cases hd : d = '*'
        · subst hd
          obtain ⟨last', hlast', hreads⟩ := reads_inside cs (.star :: .star :: current)
            '*' rest (fun c hc => hcs c (by simp [hc])) (by simp) (by decide) hrest
          refine ⟨last', hlast', ?_⟩
          have hfirst : Reads (place current (some last)) ['*', '*'] (cs ++ rest)
              (place (.star :: .star :: current) (some '*')) := by
            refine Reads.of_step ?_
            rw [List.singleton_append, step_doubleStar, doubleStar_inside hcur hlast]
          simpa [partToken] using hfirst.trans hreads
        · obtain ⟨last', hlast', hreads⟩ := reads_inside (d :: cs) (.star :: current) '*'
            rest (fun c hc => hcs c (List.mem_cons_of_mem _ hc)) (by simp) (by decide) hrest
          refine ⟨last', hlast', ?_⟩
          have hfirst : Reads (place current (some last)) ['*'] (d :: cs ++ rest)
              (place (.star :: current) (some '*')) :=
            Reads.of_step (step_star (by simpa using hd))
          simpa [partToken] using hfirst.trans hreads
      · have hc := hcs c (by simp)
        obtain ⟨last', hlast', hreads⟩ := reads_inside (d :: cs) (partToken c :: current) c
          rest (fun c hc => hcs c (List.mem_cons_of_mem _ hc)) (by simp) hc.1 hrest
        refine ⟨last', hlast', ?_⟩
        have hfirst : Reads (place current (some last)) [c] (d :: cs ++ rest)
            (place (partToken c :: current) (some c)) :=
          Reads.of_step (step_place (Or.inr hc) hstar current (some last) _)
        simpa using hfirst.trans hreads

/-- **A part** that is not `**` adds the tokens of its characters. -/
theorem reads_part {s : List Char} (hs : IsStep s) (hany : s ≠ anyParts) {current : List Token}
    {last : Option Char} (hstart : current ≠ [] → last = some '/') {rest : List Char}
    (hrest : EndsStep rest) :
    ∃ last', last' ≠ '/' ∧ Reads (place current last) s rest
      (place ((s.map partToken).reverse ++ current) (some last')) := by
  obtain ⟨hne, hchars⟩ := hs
  -- all that is special at the start of a part is a pair of stars
  by_cases hpair : ∃ cs, s = '*' :: '*' :: cs
  · obtain ⟨cs, rfl⟩ := hpair
    cases cs with
    | nil => exact absurd rfl hany
    | cons c cs =>
        have hc := hchars c (by simp)
        obtain ⟨last', hlast', hreads⟩ := reads_inside (c :: cs) (.star :: .star :: current)
          '*' rest (fun c hc => hchars c (by simp [List.mem_cons.mp hc])) (by simp) (by decide)
          hrest
        refine ⟨last', hlast', ?_⟩
        have hfirst : Reads (place current last) ['*', '*'] (c :: cs ++ rest)
            (place (.star :: .star :: current) (some '*')) := by
          refine Reads.of_step ?_
          rw [List.singleton_append, step_doubleStar]
          exact congrArg Except.ok (doubleStar_start hstart hc.1 _)
        simpa [partToken] using hfirst.trans hreads
  · cases s with
    | nil => exact absurd rfl hne
    | cons c cs =>
        have hc := hchars c (by simp)
        obtain ⟨last', hlast', hreads⟩ := reads_inside cs (partToken c :: current) c rest
          (fun c hc => hchars c (List.mem_cons_of_mem _ hc)) (by simp) hc.1 hrest
        refine ⟨last', hlast', ?_⟩
        have hfirst : Reads (place current last) [c] (cs ++ rest)
            (place (partToken c :: current) (some c)) := by
          refine Reads.of_step ?_
          by_cases hstar : c = '*'
          · subst hstar
            refine step_star fun h => ?_
            cases cs with
            | nil => exact hrest.head?_ne_star h
            | cons d cs => exact hpair ⟨cs, by simpa using h⟩
          · exact step_place (Or.inr hc) hstar current last _
        simpa using hfirst.trans hreads

/-! ## Reading at a slash -/

/-- The tokens, the latest first, after `**` with a slash behind it: at the start it stands for
leading directories, else it takes the place of the slash before it. -/
def afterAnyParts : List Token → List Token
  | [] => [.leadingDirs]
  | .leadingDirs :: ts => .leadingDirs :: ts
  | .trailingDirs :: ts => .trailingDirs :: ts
  | _ :: ts => .innerDirs :: ts

def afterStep (current : List Token) (s : List Char) : List Token :=
  if s = anyParts then afterAnyParts current
  else .literal '/' :: ((s.map partToken).reverse ++ current)

def stepsText (ss : List (List Char)) : List Char :=
  ss.flatMap fun s => s ++ ['/']

theorem reads_step {s : List Char} (hs : IsStep s) {current : List Token} {last : Option Char}
    (hstart : current ≠ [] → last = some '/') (rest : List Char) :
    Reads (place current last) (s ++ ['/']) rest (place (afterStep current s) (some '/')) := by
  by_cases hany : s = anyParts
  · subst hany
    rw [afterStep, if_pos rfl]
    refine Reads.of_step ?_
    show (place current last).step false '*' ('*' :: '/' :: rest) = _
    rw [step_doubleStar]
    cases current with
    | nil => rfl
    | cons t ts =>
        rw [hstart (by simp)]
        cases t <;> rfl
  · rw [afterStep, if_neg hany]
    obtain ⟨last', _, hreads⟩ := reads_part hs hany hstart (Or.inr ⟨rest, rfl⟩)
    exact hreads.trans (Reads.of_step (step_place (Or.inl rfl) (by decide) _ _ rest))

theorem reads_steps {ss : List (List Char)} (hss : ∀ s ∈ ss, IsStep s) {current : List Token}
    {last : Option Char} (hstart : current ≠ [] → last = some '/') (rest : List Char) :
    ∃ last', (ss.foldl afterStep current ≠ [] → last' = some '/') ∧
      Reads (place current last) (stepsText ss) rest
        (place (ss.foldl afterStep current) last') := by
  induction ss generalizing current last with
  | nil => exact ⟨last, hstart, Reads.refl _ rest⟩
  | cons s ss ih =>
      obtain ⟨last', hlast', hreads⟩ := ih (fun s hs => hss s (List.mem_cons_of_mem _ hs))
        (fun _ => rfl : afterStep current s ≠ [] → some '/' = some '/')
      exact ⟨last', hlast', (reads_step (hss s (by simp)) hstart _).trans hreads⟩

/-! ## What has been read at a slash -/

/-- The tokens, the latest first, that can stand before the start of a part. -/
inductive AtSlash : List Token → Prop
  | start : AtSlash []
  | leading : AtSlash [.leadingDirs]
  | slash (ts : List Token) : AtSlash (.literal '/' :: ts)
  | inner (ts : List Token) : AtSlash (.innerDirs :: ts)

theorem AtSlash.afterStep {current : List Token} (h : AtSlash current) (s : List Char) :
    AtSlash (afterStep current s) := by
  unfold Glob.afterStep
  split
  · cases h with
    | start => exact .leading
    | leading => exact .leading
    | slash ts => exact .inner ts
    | inner ts => exact .inner ts
  · exact .slash _

theorem AtSlash.foldl_afterStep {current : List Token} (h : AtSlash current)
    (ss : List (List Char)) : AtSlash (ss.foldl Glob.afterStep current) := by
  induction ss generalizing current with
  | nil => exact h
  | cons s ss ih => exact ih (h.afterStep s)

theorem isClosed_append {u v : List Nat} (hu : IsClosed u) (hv : IsClosed v) :
    IsClosed (u ++ v) := by
  rcases hv with rfl | ⟨x, rfl⟩
  · rwa [List.append_nil]
  · exact Or.inr ⟨u ++ x, by simp⟩

theorem tokensAccept_afterAnyParts {current : List Token} (h : AtSlash current) {w : List Nat}
    (hw : IsBytes w) :
    TokensAccept (afterAnyParts current).reverse w ↔
      ∃ u v, w = u ++ v ∧ TokensAccept current.reverse u ∧ IsClosed v := by
  -- what stands in front decides what the stars become: `AtSlash` lists the ways
  cases h with
  | start =>
      rw [afterAnyParts, List.reverse_singleton, tokensAccept_singleton,
        tokenAccepts_leadingDirs hw]
      simp
  | leading =>
      rw [afterAnyParts, List.reverse_singleton, tokensAccept_singleton,
        tokenAccepts_leadingDirs hw]
      constructor
      · intro hc
        exact ⟨[], w, rfl, tokensAccept_singleton.mpr
          ((tokenAccepts_leadingDirs (by simp [IsBytes])).mpr (Or.inl rfl)), hc⟩
      · rintro ⟨u, v, rfl, hu, hv⟩
        rw [tokensAccept_singleton, tokenAccepts_leadingDirs (isBytes_append.mp hw).1] at hu
        exact isClosed_append hu hv
  | slash ts =>
      simp only [afterAnyParts, List.reverse_cons, tokensAccept_append, tokensAccept_singleton,
        tokenAccepts_literal, utf8_slash]
      constructor
      · rintro ⟨u, v, rfl, hu, hv⟩
        obtain ⟨x, rfl, hx⟩ := (tokenAccepts_innerDirs (isBytes_append.mp hw).2).mp hv
        exact ⟨u ++ [slashByte], x, by simp, ⟨u, [slashByte], rfl, hu, rfl⟩, hx⟩
      · rintro ⟨_, v, rfl, ⟨u, _, rfl, hu, rfl⟩, hv⟩
        refine ⟨u, slashByte :: v, by simp, hu, ?_⟩
        refine (tokenAccepts_innerDirs fun b hb => hw b ?_).mpr ⟨v, rfl, hv⟩
        rw [List.append_assoc]
        exact List.mem_append_right _ hb
  | inner ts =>
      simp only [afterAnyParts, List.reverse_cons, tokensAccept_append, tokensAccept_singleton]
      constructor
      · rintro ⟨u, v, rfl, hu, hv⟩
        exact ⟨u ++ v, [], by simp, ⟨u, v, rfl, hu, hv⟩, Or.inl rfl⟩
      · rintro ⟨_, v, rfl, ⟨u, x, rfl, hu, hx⟩, hv⟩
        obtain ⟨hux, hbv⟩ := isBytes_append.mp hw
        obtain ⟨y, rfl, hy⟩ := (tokenAccepts_innerDirs (isBytes_append.mp hux).2).mp hx
        refine ⟨u, slashByte :: (y ++ v), by simp, hu, ?_⟩
        refine (tokenAccepts_innerDirs fun b hb => hw b ?_).mpr ⟨_, rfl, isClosed_append hy hv⟩
        rw [List.append_assoc]
        exact List.mem_append_right _ hb

/-- **The invariant at a slash:** the tokens so far, the latest first, stand for the parts that the
steps so far match, with a slash after each. -/
def Closes (current : List Token) (ss : List (List Char)) : Prop :=
  ∀ w, IsBytes w → (TokensAccept current.reverse w ↔
    ∃ parts, AreParts parts ∧ w = closed parts ∧ StepsMatch ss parts)

theorem closes_nil : Closes [] [] := by
  intro w _
  constructor
  · intro h
    exact ⟨[], by simp [AreParts], tokensAccept_nil.mp h, rfl⟩
  · rintro ⟨_, _, rfl, rfl⟩
    rfl

theorem Closes.afterAnyParts {current : List Token} {ss : List (List Char)}
    (h : Closes current ss) (hat : AtSlash current) :
    Closes (Glob.afterAnyParts current) (ss ++ [anyParts]) := by
  intro w hw
  rw [tokensAccept_afterAnyParts hat hw]
  constructor
  · rintro ⟨u, v, rfl, hu, hv⟩
    obtain ⟨a, ha, rfl, hsteps⟩ := (h u (isBytes_append.mp hw).1).mp hu
    obtain ⟨b, hb, rfl⟩ := isClosed_iff.mp hv
    exact ⟨a ++ b, areParts_append.mpr ⟨ha, hb⟩, (closed_append a b).symm,
      stepsMatch_append.mpr ⟨a, b, rfl, hsteps, stepsMatch_anyParts b⟩⟩
  · rintro ⟨parts, hparts, rfl, hsteps⟩
    obtain ⟨a, b, rfl, ha, _⟩ := stepsMatch_append.mp hsteps
    obtain ⟨hpa, hpb⟩ := areParts_append.mp hparts
    rw [closed_append] at hw ⊢
    exact ⟨closed a, closed b, rfl, (h _ (isBytes_append.mp hw).1).mpr ⟨a, hpa, rfl, ha⟩,
      isClosed_iff.mpr ⟨b, hpb, rfl⟩⟩

theorem Closes.afterPart {current : List Token} {ss : List (List Char)} (h : Closes current ss)
    {s : List Char} (hs : IsStep s) (hany : s ≠ anyParts) :
    Closes (.literal '/' :: ((s.map partToken).reverse ++ current)) (ss ++ [s]) := by
  intro w hw
  have hslash : '/' ∉ s := fun hm => (hs.2 '/' hm).1 rfl
  rw [List.reverse_cons, List.reverse_append, List.reverse_reverse, tokensAccept_append]
  constructor
  · rintro ⟨_, v, rfl, huv, hv⟩
    rw [tokensAccept_singleton, tokenAccepts_literal, utf8_slash] at hv
    obtain ⟨u, p, rfl, hu, hp⟩ := tokensAccept_append.mp huv
    obtain ⟨hbu, hbp⟩ := isBytes_append.mp (isBytes_append.mp hw).1
    obtain ⟨a, ha, rfl, hsteps⟩ := (h u hbu).mp hu
    have hmatch := (tokensAccept_part hbp).mp hp
    refine ⟨a ++ [p], ?_, ?_, ?_⟩
    · exact areParts_append.mpr ⟨ha, by simpa [AreParts] using hmatch.slash_notMem hslash⟩
    · rw [closed_append, closed_cons, hv]
      simp
    · exact stepsMatch_append.mpr ⟨a, [p], rfl, hsteps,
        (stepsMatch_singleton hany).mpr ⟨p, rfl, hmatch⟩⟩
  · rintro ⟨parts, hparts, rfl, hsteps⟩
    obtain ⟨a, b, rfl, ha, hb⟩ := stepsMatch_append.mp hsteps
    obtain ⟨p, rfl, hp⟩ := (stepsMatch_singleton hany).mp hb
    have hclosed : closed (a ++ [p]) = (closed a ++ p) ++ [slashByte] := by
      simp [closed_append, closed_cons]
    rw [hclosed] at hw ⊢
    obtain ⟨hba, hbp⟩ := isBytes_append.mp (isBytes_append.mp hw).1
    refine ⟨closed a ++ p, [slashByte], rfl,
      tokensAccept_append.mpr ⟨closed a, p, rfl, ?_, ?_⟩, ?_⟩
    · exact (h _ hba).mpr ⟨a, (areParts_append.mp hparts).1, rfl, ha⟩
    · exact (tokensAccept_part hbp).mpr hp
    · rw [tokensAccept_singleton, tokenAccepts_literal, utf8_slash]

/-- **Step.** One more step with a slash behind it keeps the invariant. -/
theorem Closes.afterStep {current : List Token} {ss : List (List Char)} (h : Closes current ss)
    (hat : AtSlash current) {s : List Char} (hs : IsStep s) :
    Closes (afterStep current s) (ss ++ [s]) := by
  unfold Glob.afterStep
  by_cases hany : s = anyParts
  · rw [if_pos hany, hany]
    exact h.afterAnyParts hat
  · rw [if_neg hany]
    exact h.afterPart hs hany

/-- **Run.** All steps keep the invariant. -/
theorem Closes.foldl_afterStep {ss : List (List Char)} (hss : ∀ s ∈ ss, IsStep s) :
    Closes (ss.foldl Glob.afterStep []) ss := by
  induction ss using List.reverseRecOn with
  | nil => exact closes_nil
  | append_singleton ss s ih =>
      rw [List.foldl_append]
      exact (ih fun s hs => hss s (List.mem_append_left _ hs)).afterStep
        (AtSlash.start.foldl_afterStep ss) (hss s (by simp))

/-! ## The whole glob -/

def afterTrailing : List Token → List Token
  | [] => [.leadingDirs]
  | .leadingDirs :: ts => .leadingDirs :: ts
  | .trailingDirs :: ts => .trailingDirs :: ts
  | _ :: ts => .trailingDirs :: ts

def afterLast (current : List Token) (t : List Char) : List Token :=
  if t = anyParts then afterTrailing current else (t.map partToken).reverse ++ current

theorem reads_last {t : List Char} (ht : IsStep t) {current : List Token} {last : Option Char}
    (hstart : current ≠ [] → last = some '/') :
    ∃ last', Reads (place current last) t [] (place (afterLast current t) last') := by
  by_cases hany : t = anyParts
  · subst hany
    rw [afterLast, if_pos rfl]
    refine ⟨some '*', Reads.of_step ?_⟩
    show (place current last).step false '*' ['*'] = _
    rw [step_doubleStar]
    cases current with
    | nil => rfl
    | cons t ts =>
        rw [hstart (by simp)]
        cases t <;> rfl
  · obtain ⟨last', _, hreads⟩ := reads_part ht hany hstart (Or.inl rfl)
    rw [afterLast, if_neg hany]
    exact ⟨last', hreads⟩

theorem readTokens_steps {ss : List (List Char)} (hss : ∀ s ∈ ss, IsStep s) {t : List Char}
    (ht : IsStep t) :
    readTokens false (stepsText ss ++ t) =
      .ok (afterLast (ss.foldl afterStep []) t).reverse := by
  obtain ⟨last, hlast, hsteps⟩ := reads_steps hss (fun h => absurd rfl h : ([] : List Token) ≠ [] →
    (none : Option Char) = some '/') (t ++ [])
  obtain ⟨last', hfinal⟩ := reads_last ht hlast
  obtain ⟨fuel, _, heq⟩ := hsteps.trans hfinal (stepsText ss ++ t).length (by simp)
  rw [List.append_nil] at heq
  rw [readTokens]
  show run false _ (place [] none) _ = _
  rw [heq]
  unfold run
  rfl

theorem partMatches_anyParts {w : List Nat} (h : slashByte ∉ w) : PartMatches anyParts w :=
  ⟨w, [], by simp, h, [], [], rfl, by simp, rfl⟩

/-- The tokens, the latest first, that can stand after `**` with a slash behind it. -/
def AfterAnyParts (current : List Token) : Prop :=
  current = [.leadingDirs] ∨ ∃ ts, current = .innerDirs :: ts

theorem AtSlash.afterAnyParts {current : List Token} (h : AtSlash current) :
    AfterAnyParts (Glob.afterAnyParts current) := by
  cases h with
  | start => exact Or.inl rfl
  | leading => exact Or.inl rfl
  | slash ts => exact Or.inr ⟨ts, rfl⟩
  | inner ts => exact Or.inr ⟨ts, rfl⟩

theorem node_eq_nodeOf {text : String} {withinParts : Bool} {ts : List Token}
    (h : ts ≠ [.leadingDirs]) : node ⟨text, withinParts, ts⟩ = nodeOf withinParts ts := by
  unfold node
  split
  · next heq => exact absurd heq h
  · rfl

theorem isMatch_iff_tokensAccept {text path : String} {ts : List Token}
    (h : ts ≠ [.leadingDirs]) :
    isMatch ⟨text, true, ts⟩ path = true ↔ TokensAccept ts (bytesOf path) := by
  rw [isMatch, Pattern.matchesWhole_iff_accepts, node_eq_nodeOf h]
  exact Iff.rfl

/-- Where the last step is `**`, anything may follow what the steps before it match. -/
theorem isMatch_afterLast_anyParts {current : List Token} (h : AfterAnyParts current)
    {text path : String} :
    isMatch ⟨text, true, (afterLast current anyParts).reverse⟩ path = true ↔
      ∃ u v, bytesOf path = u ++ v ∧ TokensAccept current.reverse u := by
  have hpath : IsBytes (bytesOf path) := by
    rw [bytesOf_eq_utf8]
    exact isBytes_utf8 _
  rw [afterLast, if_pos rfl]
  rcases h with rfl | ⟨ts, rfl⟩
  · have hstart : TokensAccept [.leadingDirs] [] := tokensAccept_singleton.mpr
      ((tokenAccepts_leadingDirs (by simp [IsBytes])).mpr (Or.inl rfl))
    have hall : isMatch ⟨text, true, [.leadingDirs]⟩ path = true := by
      rw [isMatch, Pattern.matchesWhole_iff_accepts]
      exact accepts_anything hpath
    exact ⟨fun _ => ⟨[], _, rfl, hstart⟩, fun _ => hall⟩
  · have hne : ts.reverse ++ [Token.trailingDirs] ≠ [.leadingDirs] := by
      intro e
      have hlast := congrArg List.getLast? e
      simp at hlast
    show isMatch ⟨text, true, (Token.trailingDirs :: ts).reverse⟩ path = true ↔ _
    rw [List.reverse_cons, isMatch_iff_tokensAccept hne, List.reverse_cons]
    simp only [tokensAccept_append, tokensAccept_singleton]
    constructor
    · rintro ⟨u, v, heq, hu, hv⟩
      rw [heq] at hpath ⊢
      obtain ⟨x, rfl⟩ := (tokenAccepts_trailingDirs (isBytes_append.mp hpath).2).mp hv
      have hslash : TokenAccepts .innerDirs [slashByte] :=
        (tokenAccepts_innerDirs (by simp [IsBytes, slashByte])).mpr ⟨[], rfl, Or.inl rfl⟩
      exact ⟨u ++ [slashByte], x, by simp, u, [slashByte], rfl, hu, hslash⟩
    · rintro ⟨_, v, heq, u, x, rfl, hu, hx⟩
      rw [heq] at hpath ⊢
      obtain ⟨hux, hbv⟩ := isBytes_append.mp hpath
      obtain ⟨y, rfl, _⟩ := (tokenAccepts_innerDirs (isBytes_append.mp hux).2).mp hx
      refine ⟨u, slashByte :: (y ++ v), by simp, hu, ?_⟩
      refine (tokenAccepts_trailingDirs fun b hb => hpath b ?_).mpr ⟨_, rfl⟩
      rw [List.append_assoc]
      exact List.mem_append_right _ hb

/-- Where the last step is not `**`, it matches what follows what the steps before it match. -/
theorem isMatch_afterLast_part {current : List Token} (h : AfterAnyParts current)
    {t : List Char} (ht : IsStep t) (hany : t ≠ anyParts) {text path : String} :
    isMatch ⟨text, true, (afterLast current t).reverse⟩ path = true ↔
      ∃ u v, bytesOf path = u ++ v ∧ TokensAccept current.reverse u ∧ PartMatches t v := by
  have hpath : IsBytes (bytesOf path) := by
    rw [bytesOf_eq_utf8]
    exact isBytes_utf8 _
  have hlen : 0 < current.length ∧ 0 < t.length := by
    refine ⟨?_, List.length_pos_of_ne_nil ht.1⟩
    rcases h with rfl | ⟨ts, rfl⟩ <;> simp
  rw [afterLast, if_neg hany, List.reverse_append, List.reverse_reverse,
    isMatch_iff_tokensAccept]
  · rw [tokensAccept_append]
    constructor
    · rintro ⟨u, v, heq, hu, hv⟩
      rw [heq] at hpath
      exact ⟨u, v, heq, hu, (tokensAccept_part (isBytes_append.mp hpath).2).mp hv⟩
    · rintro ⟨u, v, heq, hu, hv⟩
      rw [heq] at hpath
      exact ⟨u, v, heq, hu, (tokensAccept_part (isBytes_append.mp hpath).2).mpr hv⟩
  · intro e
    have hone := congrArg List.length e
    simp only [List.length_append, List.length_reverse, List.length_map, List.length_singleton]
      at hone
    omega

/-- **A glob of steps, `**` and a last step** matches a path exactly if the last step matches the
last part, and the steps match some parts at the start of the path. -/
theorem isMatch_steps_iff {ss : List (List Char)} (hss : ∀ s ∈ ss, IsStep s) {t : List Char}
    (ht : IsStep t) {text path : String} {parts : List (List Nat)} {last : List Nat}
    (hparts : AreParts parts) (hlast : slashByte ∉ last)
    (hpath : bytesOf path = closed parts ++ last) :
    isMatch ⟨text, true, (afterLast ((ss ++ [anyParts]).foldl afterStep []) t).reverse⟩ path =
        true ↔
      PartMatches t last ∧ ∃ a b, parts = a ++ b ∧ StepsMatch ss a := by
  have hcloses := Closes.foldl_afterStep (isStep_concat_anyParts hss)
  have hshape : AfterAnyParts ((ss ++ [anyParts]).foldl afterStep []) := by
    rw [List.foldl_append]
    exact (AtSlash.start.foldl_afterStep ss).afterAnyParts
  have hsplit : (∃ a b, parts = a ++ b ∧ StepsMatch ss a) ↔
      StepsMatch (ss ++ [anyParts]) parts := by
    rw [stepsMatch_append]
    simp only [stepsMatch_anyParts, and_true]
  have hbytes : IsBytes (bytesOf path) := by
    rw [bytesOf_eq_utf8]
    exact isBytes_utf8 _
  have hfront : ∀ {u v : List Nat}, bytesOf path = u ++ v → IsBytes u := fun heq =>
    (isBytes_append.mp (heq ▸ hbytes)).1
  rw [hsplit]
  -- `**` at the end matches any last part, but may take parts in front of it as well
  by_cases hany : t = anyParts
  · subst hany
    rw [isMatch_afterLast_anyParts hshape]
    constructor
    · rintro ⟨u, v, heq, hu⟩
      obtain ⟨a, ha, rfl, hmatch⟩ := (hcloses u (hfront heq)).mp hu
      obtain ⟨b, last', hb, hlast', rfl⟩ := exists_closed_append v
      rw [hpath, ← List.append_assoc, ← closed_append] at heq
      obtain ⟨rfl, rfl⟩ := closed_append_inj hparts (areParts_append.mpr ⟨ha, hb⟩) hlast hlast' heq
      obtain ⟨x, y, rfl, hx, _⟩ := stepsMatch_append.mp hmatch
      refine ⟨partMatches_anyParts hlast, stepsMatch_append.mpr ⟨x, y ++ b, by simp, hx, ?_⟩⟩
      exact stepsMatch_anyParts _
    · rintro ⟨_, hmatch⟩
      exact ⟨closed parts, last, hpath, (hcloses _ (hfront hpath)).mpr ⟨parts, hparts, rfl, hmatch⟩⟩
  · have hslash : '/' ∉ t := fun hm => (ht.2 '/' hm).1 rfl
    rw [isMatch_afterLast_part hshape ht hany]
    constructor
    · rintro ⟨u, v, heq, hu, hv⟩
      obtain ⟨a, ha, rfl, hmatch⟩ := (hcloses u (hfront heq)).mp hu
      rw [hpath] at heq
      obtain ⟨rfl, rfl⟩ := closed_append_inj hparts ha hlast (hv.slash_notMem hslash) heq
      exact ⟨hv, hmatch⟩
    · rintro ⟨hv, hmatch⟩
      exact ⟨closed parts, last, hpath,
        (hcloses _ (hfront hpath)).mpr ⟨parts, hparts, rfl, hmatch⟩, hv⟩

end SourceEdit.Glob
