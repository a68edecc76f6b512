import SourceEdit.Pattern.Escape
import SourceEdit.Proofs.Outcome

/-!
# Reading on where more text stands behind

In its anchored form, an expression has a parenthesis and a dollar sign behind it. No reader
stops earlier or later for that: wherever one succeeds on the expression alone, it reads the same
from the longer text, and what remains is longer by those two characters. The one exception is
a comment that the expression does not end, which takes them with it. `Remains` relates what
remains of the two texts, and there is one lemma for each reader.
-/

namespace SourceEdit.Pattern

open Unicode (CodeSet)
open Outcome (Follows Beside)

/-- Whether a hash stands on the last line of a text, so that it may begin a comment there. -/
def HasHashAtEnd (cs : List Char) : Prop :=
  ∃ before comment, cs = before ++ '#' :: comment ∧ '\n' ∉ comment

/-- How what remains of the longer text stands to what remains of the expression: it is closed by
a parenthesis and a dollar sign, or a comment has swallowed them. In that case `hash` holds, which
is to follow from any hash on the last line. -/
inductive Remains (hash : Prop) : List Char → List Char → Prop where
  | closed : Remains hash [] [')', '$']
  | swallowed (h : hash) : Remains hash [] []
  | cons (c : Char) {cs more : List Char} (h : Remains hash cs more)
      (hhash : c = '#' → '\n' ∉ cs → hash) : Remains hash (c :: cs) (c :: more)

theorem dropInsignificant_length_le (inComment : Bool) (cs : List Char) :
    (dropInsignificant inComment cs).length ≤ cs.length := by
  induction cs generalizing inComment with
  | nil => exact Nat.le_refl _
  | cons c cs ih =>
      simp only [dropInsignificant]
      split
      · exact Nat.le_succ_of_le (ih _)
      · split
        · exact Nat.le_succ_of_le (ih _)
        · split
          · exact Nat.le_succ_of_le (ih _)
          · exact Nat.le_refl _

theorem Flags.skip_length_le (f : Flags) (cs : List Char) : (f.skip cs).length ≤ cs.length := by
  unfold skip
  split
  · exact dropInsignificant_length_le false cs
  · exact Nat.le_refl _

theorem Flags.skip_length_le_of_cons (f : Flags) {c : Char} {cs : List Char} {n : Nat}
    (h : (c :: cs).length ≤ n + 1) : (f.skip cs).length ≤ n :=
  Nat.le_trans (f.skip_length_le cs) (Nat.le_of_succ_le_succ h)

def readWhile (f : Flags) (p : Char → Bool) : Nat → List Char → List Char × List Char
  | n + 1, c :: cs =>
    if p c then (c :: (readWhile f p n (f.skip cs)).1, (readWhile f p n (f.skip cs)).2)
    else ([], c :: cs)
  | _, cs => ([], cs)

theorem readWhile_nil {f : Flags} {p : Char → Bool} {n : Nat} : readWhile f p n [] = ([], []) := by
  cases n <;> rfl

theorem readWhile_of_not {f : Flags} {p : Char → Bool} {n : Nat} {c : Char} {cs : List Char}
    (hc : p c = false) : readWhile f p n (c :: cs) = ([], c :: cs) := by
  cases n with
  | zero => rfl
  | succ n => rw [readWhile, hc, if_neg Bool.false_ne_true]

theorem edgeName_eq (f : Flags) (n : Nat) (cs : List Char) :
    edgeName f n cs = readWhile f isEdgeNameChar n cs := by
  induction n generalizing cs with
  | zero => rfl
  | succ n ih =>
      cases cs with
      | nil => rfl
      | cons c cs => simp only [edgeName, readWhile, ih]

namespace Remains

variable {hash : Prop} {cs more : List Char} {f : Flags}

theorem append_closing (cs : List Char) :
    Remains (HasHashAtEnd cs) cs (cs ++ [')', '$']) := by
  suffices h : ∀ before after, cs = before ++ after →
      Remains (HasHashAtEnd cs) after (after ++ [')', '$']) from h [] cs rfl
  intro before after hcs
  induction after generalizing before with
  | nil => exact closed
  | cons c after ih =>
      refine (ih (before ++ [c]) (by simp [hcs])).cons c ?_
      rintro rfl hline
      exact ⟨before, after, hcs, hline⟩

theorem length_le (h : Remains hash cs more) : cs.length ≤ more.length := by
  induction h with
  | closed => exact Nat.zero_le _
  | swallowed => exact Nat.le_refl _
  | cons c _ _ ih => exact Nat.succ_le_succ ih

theorem starts (h : Remains hash cs more) (mark : Char) (hmark : mark ≠ ')') :
    (∃ rest left, cs = mark :: rest ∧ more = mark :: left ∧ Remains hash rest left) ∨
      (∀ rest, cs ≠ mark :: rest) ∧ ∀ left, more ≠ mark :: left := by
  cases h with
  | closed =>
      refine Or.inr ⟨fun _ => (List.cons_ne_nil _ _).symm, fun _ heq => ?_⟩
      exact hmark (List.cons.inj heq).1.symm
  | swallowed =>
      refine Or.inr ⟨fun _ => ?_, fun _ => ?_⟩
      · exact (List.cons_ne_nil _ _).symm
      · exact (List.cons_ne_nil _ _).symm
  | @cons c cs more h =>
      by_cases hc : c = mark
      · exact Or.inl ⟨cs, more, by rw [hc], by rw [hc], h⟩
      · exact Or.inr ⟨fun _ heq => hc (List.cons.inj heq).1, fun _ heq => hc (List.cons.inj heq).1⟩

/-- What is dropped is the same, up to an end of the expression within a comment. -/
theorem dropInsignificant (h : Remains hash cs more) (inComment : Bool)
    (hcomment : inComment = true → '\n' ∉ cs → hash) :
    Remains hash (dropInsignificant inComment cs) (dropInsignificant inComment more) := by
  induction h generalizing inComment with
  | closed =>
      -- neither character is blank, starts a comment or ends one
      cases inComment with
      | false => exact closed
      | true => exact swallowed (hcomment rfl List.not_mem_nil)
  | swallowed h => exact swallowed h
  | @cons c cs more h hhash ih =>
      simp only [Pattern.dropInsignificant]
      split
      · next hin =>
        refine ih _ fun hc hline => hcomment hin ?_
        rw [List.mem_cons, not_or]
        exact ⟨fun e => (bne_iff_ne.mp hc) e.symm, hline⟩
      · split
        · exact ih _ fun h => nomatch h
        · split
          · next hc => exact ih _ fun _ => hhash (beq_iff_eq.mp hc)
          · exact h.cons c hhash

theorem skip (h : Remains hash cs more) (f : Flags) : Remains hash (f.skip cs) (f.skip more) := by
  unfold Flags.skip
  split
  · exact h.dropInsignificant false fun h => nomatch h
  · exact h

theorem dropBlanks (h : Remains hash cs more) :
    Remains hash (cs.dropWhile Text.isBlank) (more.dropWhile Text.isBlank) := by
  induction h with
  | closed => exact closed
  | swallowed h => exact swallowed h
  | cons c h hhash ih =>
      simp only [List.dropWhile_cons]
      split
      · exact ih
      · exact h.cons c hhash

/-! ## Escapes -/

theorem fixedHex? {acc count : Nat} (h : Remains hash cs more) :
    Follows (Beside (Remains hash)) (fixedHex? f acc count cs) (fixedHex? f acc count more) := by
  induction count generalizing acc cs more with
  | zero => exact Follows.some ⟨rfl, h⟩
  | succ count ih =>
      cases h with
      | closed => exact Follows.none
      | swallowed => exact Follows.none
      | cons c h =>
          refine Follows.bind_same fun d _ => ?_
          dsimp only
          split
          · exact ih h
          · exact ih (h.skip f)

/-- The braces close within the expression, so that the longer text only asks for more fuel. -/
theorem bracedText? {n m : Nat} (h : Remains hash cs more) (hnm : n ≤ m) :
    Follows (Beside (Remains hash)) (bracedText? f n cs) (bracedText? f m more) := by
  induction n generalizing cs more m with
  | zero => exact Follows.none
  | succ n ih =>
      obtain ⟨m, rfl⟩ : ∃ k, m = k + 1 := ⟨m - 1, by omega⟩
      have hskip := h.skip f
      unfold Pattern.bracedText?
      generalize f.skip cs = cs' at hskip ⊢
      generalize f.skip more = more' at hskip ⊢
      cases hskip with
      | closed => exact Follows.none
      | swallowed => exact Follows.none
      | cons c hrest =>
          by_cases hc : c = '}'
          · subst hc
            exact Follows.some ⟨rfl, hrest⟩
          · simp only
            refine Follows.bind (ih hrest (by omega)) ?_
            rintro ⟨inner, rest⟩ ⟨_, left⟩ ⟨rfl, hleft⟩
            exact Follows.some ⟨rfl, hleft⟩

theorem numberedChar? {digits : Nat} (h : Remains hash cs more) :
    Follows (Beside (Remains hash))
      (do
        let (n, rest) ← Pattern.fixedHex? f 0 digits cs
        let c ← Text.charOf? n
        some (Escape.literal c (digits == 2), f.skip rest))
      (do
        let (n, rest) ← Pattern.fixedHex? f 0 digits more
        let c ← Text.charOf? n
        some (Escape.literal c (digits == 2), f.skip rest)) := by
  refine Follows.bind h.fixedHex? ?_
  rintro ⟨n, rest⟩ ⟨_, left⟩ ⟨rfl, hleft⟩
  exact Follows.bind_same fun c _ => Follows.some ⟨rfl, hleft.skip f⟩

theorem hexEscape? {digits : Nat} (h : Remains hash cs more) :
    Follows (Beside (Remains hash)) (hexEscape? f digits cs) (hexEscape? f digits more) := by
  have hskip := h.skip f
  unfold Pattern.hexEscape?
  rcases hskip.starts '{' (by decide) with ⟨rest, left, hcs, hmore, hrest⟩ | ⟨hcs, hmore⟩
  · rw [hcs, hmore]
    refine Follows.bind (hrest.bracedText? (Nat.succ_le_succ hrest.length_le)) ?_
    rintro ⟨inner, rest⟩ ⟨_, left⟩ ⟨rfl, hleft⟩
    refine Follows.bind_same fun n _ => Follows.bind_same fun c _ => ?_
    exact Follows.some ⟨rfl, hleft.skip f⟩
  · simp only
    exact hskip.numberedChar?

theorem propertyEscape? {negated : Bool} (h : Remains hash cs more) :
    Follows (Beside (Remains hash)) (propertyEscape? f negated cs)
      (propertyEscape? f negated more) := by
  have hskip := h.skip f
  unfold Pattern.propertyEscape?
  refine Follows.ite (fun _ => Follows.none) fun _ => ?_
  rcases hskip.starts '{' (by decide) with ⟨rest, left, hcs, hmore, hrest⟩ | ⟨hcs, hmore⟩
  · rw [hcs, hmore]
    refine Follows.bind (hrest.bracedText? (Nat.succ_le_succ hrest.length_le)) ?_
    rintro ⟨inner, rest⟩ ⟨_, left⟩ ⟨rfl, hleft⟩
    exact Follows.bind_same fun _ _ => Follows.some ⟨rfl, hleft⟩
  rcases hskip.starts '\\' (by decide) with ⟨rest, left, hcs', -, -⟩ | ⟨hcs', -⟩
  · rw [hcs']
    exact Follows.none
  generalize f.skip cs = cs₁ at hskip hcs hcs' ⊢
  generalize f.skip more = more₁ at hskip ⊢
  cases hskip with
  | closed => exact Follows.none
  | swallowed => exact Follows.none
  | @cons c rest left hrest =>
      have hbrace : c ≠ '{' := fun hc => hcs rest (by rw [hc])
      have hslash : c ≠ '\\' := fun hc => hcs' rest (by rw [hc])
      simp only
      exact Follows.bind_same fun set _ => Follows.some ⟨rfl, hrest.skip f⟩

/-- Characters that pass a test, which the parenthesis does not, end where the expression does or
within it. -/
theorem readWhile {p : Char → Bool} (hp : p ')' = false) {n m : Nat} (h : Remains hash cs more)
    (hn : cs.length ≤ n) (hm : more.length ≤ m) :
    Beside (Remains hash) (readWhile f p n cs) (readWhile f p m more) := by
  fun_induction Pattern.readWhile f p n cs generalizing more m with
  | case1 n c cs hc ih =>
      cases h with
      | cons c h hhash =>
          obtain ⟨m, rfl⟩ := Nat.exists_eq_add_of_le' (Nat.le_trans (Nat.le_add_left 1 _) hm)
          have hnext := ih (h.skip f) (f.skip_length_le_of_cons hn) (f.skip_length_le_of_cons hm)
          rw [Pattern.readWhile, if_pos hc]
          exact ⟨congrArg (c :: ·) hnext.1, hnext.2⟩
  | case2 n c cs hc =>
      cases h with
      | cons c h hhash =>
          rw [readWhile_of_not (Bool.eq_false_iff.mpr hc)]
          exact ⟨rfl, h.cons c hhash⟩
  | case3 n cs hne =>
      cases h with
      | closed =>
          rw [readWhile_of_not hp]
          exact ⟨rfl, closed⟩
      | swallowed h =>
          rw [readWhile_nil]
          exact ⟨rfl, swallowed h⟩
      | cons c h hhash =>
          obtain ⟨n, rfl⟩ := Nat.exists_eq_add_of_le' (Nat.le_trans (Nat.le_add_left 1 _) hn)
          exact absurd rfl (hne n c _ rfl)

theorem wordEdge? (h : Remains hash cs more) :
    Follows (Beside (Remains hash)) (wordEdge? f cs) (wordEdge? f more) := by
  unfold Pattern.wordEdge?
  rcases h.starts '{' (by decide) with ⟨rest, left, rfl, rfl, hrest⟩ | ⟨hcs, hmore⟩
  · have hskip := hrest.skip f
    simp only
    generalize f.skip rest = cs₁ at hskip ⊢
    generalize f.skip left = more₁ at hskip ⊢
    cases hskip with
    | closed => exact Follows.none
    | swallowed => exact Follows.none
    | @cons c cs more hmore hhash =>
        -- a brace without a name is left for a repetition
        refine Follows.ite (fun _ => ?_) fun _ =>
          Follows.some ⟨rfl, hrest.cons _ fun h => absurd h (by decide)⟩
        have hname := (hmore.cons c hhash).readWhile (f := f) (p := isEdgeNameChar) (by decide)
          (Nat.le_refl _) (Nat.le_refl _)
        rw [List.length_cons, List.length_cons, ← edgeName_eq, ← edgeName_eq] at hname
        generalize edgeName f (cs.length + 1) (c :: cs) = short at hname ⊢
        generalize edgeName f (more.length + 1) (c :: more) = long at hname ⊢
        obtain ⟨letters, rest₁⟩ := short
        obtain ⟨_, left₁⟩ := long
        obtain ⟨rfl, hleft⟩ := hname
        rcases hleft.starts '}' (by decide) with ⟨_, _, rfl, rfl, hend⟩ | ⟨hcs, hmore⟩
        · simp only
          split
          · exact Follows.some ⟨rfl, hend⟩
          · exact Follows.some ⟨rfl, hend⟩
          · exact Follows.some ⟨rfl, hend⟩
          · exact Follows.some ⟨rfl, hend⟩
          · exact Follows.none
        · simp only [Prod.mk.injEq, hcs, and_false, imp_self, implies_true]
          exact Follows.none
  · simp only
    exact Follows.some ⟨rfl, h⟩

theorem escape? (h : Remains hash cs more) :
    Follows (Beside (Remains hash)) (escape? f cs) (escape? f more) := by
  cases h with
  | closed => exact Follows.none
  | swallowed => exact Follows.none
  | @cons c cs more h =>
      have hset (o : Option CodeSet) : Follows (Beside (Remains hash))
          (o.map (Escape.set ·, cs)) (o.map (Escape.set ·, more)) :=
        (Follows.same fun _ => rfl).map fun _ _ heq => ⟨congrArg Escape.set heq, h⟩
      unfold Pattern.escape?
      dsimp only
      split
      · exact h.hexEscape?
      · exact h.hexEscape?
      · exact h.hexEscape?
      · exact h.propertyEscape?
      · exact h.propertyEscape?
      all_goals first
        | exact Follows.some ⟨rfl, h⟩
        | exact hset _
        | skip
      · refine h.wordEdge?.map ?_
        rintro ⟨a, rest⟩ ⟨_, left⟩ ⟨rfl, hleft⟩
        exact ⟨rfl, hleft⟩
      · exact Follows.ite (fun _ => Follows.some ⟨rfl, h⟩) fun _ => Follows.none

theorem splitProperty (h : Remains hash cs more) (mark : Char)
    (hmark : [')', '$'].contains mark = false) :
    Option.Rel (Beside (Remains hash)) (splitProperty [mark] cs) (splitProperty [mark] more) := by
  induction h with
  | closed =>
      have hclosing : Pattern.splitProperty [mark] [')', '$'] = none := by
        have hnotMem : mark ∉ [')', '$'] := by simpa using hmark
        simp only [List.mem_cons, List.not_mem_nil, or_false, not_or] at hnotMem
        simp [Pattern.splitProperty, hnotMem.1, hnotMem.2]
      rw [hclosing]
      exact Option.Rel.none
  | swallowed => exact Option.Rel.none
  | @cons c cs more h _ ih =>
      simp only [Pattern.splitProperty, List.isPrefixOf, Bool.and_true]
      split
      · exact Option.Rel.some ⟨rfl, h⟩
      · generalize Pattern.splitProperty [mark] cs = short at ih ⊢
        generalize Pattern.splitProperty [mark] more = long at ih ⊢
        cases ih with
        | none => exact Option.Rel.none
        | some hab => exact Option.Rel.some ⟨congrArg (c :: ·) hab.1, hab.2⟩

end Remains

end SourceEdit.Pattern
