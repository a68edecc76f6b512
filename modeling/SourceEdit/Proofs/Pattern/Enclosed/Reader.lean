import SourceEdit.Pattern.Reader
import SourceEdit.Proofs.Pattern.Enclosed.Bracket

/-!
# Repetitions and groups where more text stands behind

Bounds and the starts of groups are read within the expression.
-/

namespace SourceEdit.Pattern

theorem countDigits_eq (f : Flags) (n : Nat) (cs : List Char) :
    countDigits f n cs = readWhile f Char.isDigit n cs := by
  induction n generalizing cs with
  | zero => rfl
  | succ n ih =>
      cases cs with
      | nil => rfl
      | cons c cs => simp only [countDigits, readWhile, ih]

namespace Remains

open Outcome (Follows Beside)

variable {hash : Prop} {cs more : List Char} {f : Flags}

/-! ## Repetition -/

theorem count? (h : Remains hash cs more) :
    Follows (Beside (Remains hash)) (count? f cs) (count? f more) := by
  have hdigits := h.dropBlanks.readWhile (f := f) (p := Char.isDigit) (by decide) (Nat.le_succ _)
    (Nat.le_succ _)
  simp only [Pattern.count?, countDigits_eq]
  rw [hdigits.1]
  exact Follows.ite (fun _ => Follows.none) fun _ =>
    Follows.some ⟨rfl, hdigits.2.dropBlanks.skip f⟩

/-- The bound behind a comma ends at the brace. -/
theorem upperBound (lo : Nat) (h : Remains hash cs more) : Follows (Beside (Beside (Remains hash)))
    (do
      match ← Pattern.count? f cs with
      | (hi, '}' :: rest) => if lo ≤ hi then some (lo, some hi, rest) else none
      | _ => none)
    (do
      match ← Pattern.count? f more with
      | (hi, '}' :: rest) => if lo ≤ hi then some (lo, some hi, rest) else none
      | _ => none) := by
  refine Follows.bind h.count? ?_
  rintro ⟨hi, rest⟩ ⟨_, left⟩ ⟨rfl, hleft⟩
  rcases hleft.starts '}' (by decide) with ⟨_, _, rfl, rfl, hend⟩ | ⟨hcs, -⟩
  · exact Follows.ite (fun _ => Follows.some ⟨rfl, rfl, hend⟩) fun _ => Follows.none
  · dsimp only at hcs ⊢
    simp only [Prod.mk.injEq, hcs, and_false, imp_self, implies_true]
    exact Follows.none

theorem bounds? (h : Remains hash cs more) :
    Follows (Beside (Beside (Remains hash))) (bounds? f cs) (bounds? f more) := by
  refine Follows.bind (h.skip f).count? ?_
  rintro ⟨lo, rest⟩ ⟨_, left⟩ ⟨rfl, hleft⟩
  dsimp only at hleft ⊢
  rcases hleft.starts '}' (by decide) with ⟨_, _, rfl, rfl, hend⟩ | ⟨hcs, -⟩
  · exact Follows.some ⟨rfl, rfl, hend⟩
  rcases hleft.starts ',' (by decide) with ⟨rest, left, rfl, rfl, hupper⟩ | ⟨hcs', -⟩
  · have hskip := hupper.skip f
    simp only
    rcases hskip.starts '}' (by decide) with ⟨_, _, hcs, hmore, hend⟩ | ⟨hcs, hmore⟩
    · rw [hcs, hmore]
      exact Follows.some ⟨rfl, rfl, hend⟩
    · simp only
      exact hskip.upperBound lo
  · simp only
    exact Follows.none

theorem dropPreference (h : Remains hash cs more) :
    Remains hash (dropPreference cs) (dropPreference more) := by
  unfold Pattern.dropPreference
  rcases h.starts '?' (by decide) with ⟨_, _, rfl, rfl, hrest⟩ | ⟨hcs, hmore⟩
  · exact hrest
  · simp only
    exact h

/-! ## Groups -/

theorem groupName? (h : Remains hash cs more) :
    Follows (Beside (Remains hash)) (groupName? cs) (groupName? more) := by
  have hsplit := h.splitProperty '>' (by decide)
  unfold Pattern.groupName?
  generalize Pattern.splitProperty ['>'] cs = short at hsplit ⊢
  generalize Pattern.splitProperty ['>'] more = long at hsplit ⊢
  cases hsplit with
  | none => exact Follows.none
  | @some a b hab =>
      obtain ⟨name, rest⟩ := a
      obtain ⟨_, left⟩ := b
      obtain ⟨rfl, hleft⟩ := hab
      cases name with
      | nil => exact Follows.none
      | cons c name =>
          exact Follows.ite (fun _ => Follows.some ⟨rfl, hleft⟩) fun _ => Follows.none

theorem flags? (h : Remains hash cs more) (seen : List Char) (on : Bool) (f : Flags) :
    Follows (Beside (Remains hash)) (flags? seen on f cs) (flags? seen on f more) := by
  induction h generalizing seen on f with
  | closed => exact Follows.none
  | swallowed => exact Follows.none
  | cons c h hhash ih =>
      simp only [Pattern.flags?]
      refine Follows.ite (fun _ => ?_) fun _ => Follows.ite (fun _ => Follows.none) fun _ =>
        Follows.ite (fun _ => ih _ _ _) fun _ => Follows.bind_same fun f' _ => ih _ _ _
      exact Follows.ite (fun _ => Follows.none) fun _ =>
        Follows.some ⟨rfl, h.cons c hhash⟩

/-- A parenthesis after the flags has to follow one, which the text behind does not change. -/
theorem head?_beq (h : Remains hash cs more) (hne : cs ≠ []) {c : Char} :
    (more.head? == some c) = (cs.head? == some c) := by
  cases h with
  | closed => exact absurd rfl hne
  | swallowed => rfl
  | cons c h => rfl

theorem namedGroup (h : Remains hash cs more) : Follows (Beside (Remains hash))
    ((Pattern.groupName? cs).map fun (n, rest) => (GroupStart.group f (some n), rest))
    ((Pattern.groupName? more).map fun (n, rest) => (GroupStart.group f (some n), rest)) := by
  refine h.groupName?.map ?_
  rintro ⟨n, rest⟩ ⟨_, left⟩ ⟨rfl, hleft⟩
  exact ⟨rfl, hleft⟩

theorem flaggedGroup (h : Remains hash cs more) : Follows (Beside (Remains hash))
    (match Pattern.flags? [] true f cs with
      | some (f', ':' :: rest) => some (GroupStart.group f' none, rest)
      | some (f', ')' :: rest) =>
        if cs.head? == some ')' then none else some (.setFlags f', rest)
      | _ => none)
    (match Pattern.flags? [] true f more with
      | some (f', ':' :: rest) => some (GroupStart.group f' none, rest)
      | some (f', ')' :: rest) =>
        if more.head? == some ')' then none else some (.setFlags f', rest)
      | _ => none) := by
  cases hshort : Pattern.flags? [] true f cs with
  | none => exact Follows.none
  | some result =>
      have hne : cs ≠ [] := by
        rintro rfl
        cases hshort
      obtain ⟨⟨_, left⟩, hlong, rfl, hleft⟩ := h.flags? [] true f _ hshort
      obtain ⟨f', rest⟩ := result
      rw [hlong, h.head?_beq hne]
      dsimp only at hleft
      rcases hleft.starts ':' (by decide) with ⟨_, _, rfl, rfl, hend⟩ | ⟨hcolon, -⟩
      · exact Follows.some ⟨rfl, hend⟩
      cases hleft with
      | closed => exact Follows.none
      | swallowed => exact Follows.none
      | @cons d rest left hleft =>
          have hcolon : d ≠ ':' := fun hd => hcolon rest (by rw [hd])
          by_cases hparen : d = ')'
          · subst hparen
            exact Follows.ite (fun _ => Follows.none) fun _ => Follows.some ⟨rfl, hleft⟩
          · simp only [Option.some.injEq, Prod.mk.injEq, List.cons.injEq, hcolon, hparen,
              false_and, and_false, imp_self, implies_true]
            exact Follows.none

theorem groupStart? (h : Remains hash cs more) :
    Follows (Beside (Remains hash)) (groupStart? f cs) (groupStart? f more) := by
  have hskip := h.skip f
  unfold Pattern.groupStart?
  rcases hskip.starts '?' (by decide) with ⟨rest, left, hcs, hmore, hrest⟩ | ⟨hcs, hmore⟩
  · rw [hcs, hmore]
    rcases hrest.starts '<' (by decide) with ⟨_, _, rfl, rfl, hname⟩ | ⟨hangle, hangle'⟩
    · exact hname.namedGroup
    rcases hrest.starts 'P' (by decide) with ⟨_, _, rfl, rfl, hafter⟩ | ⟨hmark, hmark'⟩
    · rcases hafter.starts '<' (by decide) with ⟨_, _, rfl, rfl, hname⟩ | ⟨hnone, hnone'⟩
      · exact hname.namedGroup
      · simp only [List.cons.injEq, hnone, hnone', true_and, imp_self, implies_true]
        exact hrest.flaggedGroup (f := f)
    · simp only [hmark, hmark', imp_self, implies_true]
      exact hrest.flaggedGroup
  · simp only [hcs, hmore, imp_self, implies_true]
    exact Follows.some ⟨rfl, hskip⟩

end Remains

end SourceEdit.Pattern
