import SourceEdit.Pattern.Bracket
import SourceEdit.Proofs.Pattern.Enclosed.Escape

/-!
# Classes where more text stands behind

A class ends at its bracket, which stands within the expression.
-/

namespace SourceEdit.Pattern

open Unicode (CodeSet)
open Outcome (Follows Beside)

variable {hash : Prop} {cs more rest : List Char} {f : Flags} {c d : Char} {outer : List OpenClass}
  {current : OpenClass} {op : ClassOp} {n m : Nat}

/-! ## Steps within a class -/

def operator? (c d : Char) : Option ClassOp :=
  if c ≠ d then none
  else if c = '&' then some .inter
  else if c = '-' then some .diff
  else if c = '~' then some .symmDiff
  else none

theorem operator?_eq_some (h : operator? c d = some op) :
    c = d ∧ (c = '&' ∧ op = .inter ∨ c = '-' ∧ op = .diff ∨ c = '~' ∧ op = .symmDiff) := by
  unfold operator? at h
  split at h
  · cases h
  next hsame =>
  refine ⟨Decidable.not_not.mp hsame, ?_⟩
  split at h
  · next hc => exact Or.inl ⟨hc, (Option.some.inj h).symm⟩
  split at h
  · next hc => exact Or.inr (Or.inl ⟨hc, (Option.some.inj h).symm⟩)
  split at h
  · next hc => exact Or.inr (Or.inr ⟨hc, (Option.some.inj h).symm⟩)
  · cases h

theorem classLoop_operator (hcs : f.skip cs = c :: d :: rest) (hop : operator? c d = some op) :
    classLoop f (n + 1) outer current cs =
      classLoop f n outer (current.operator f op) rest := by
  rw [classLoop, hcs]
  obtain ⟨rfl, ⟨rfl, rfl⟩ | ⟨rfl, rfl⟩ | ⟨rfl, rfl⟩⟩ := operator?_eq_some hop
  · rfl
  · rfl
  · rfl

theorem classLoop_member (hcs : f.skip cs = c :: rest) (hopen : c ≠ '[') (hclose : c ≠ ']')
    (hop : ∀ d, rest.head? = some d → operator? c d = none) :
    classLoop f (n + 1) outer current cs =
      (classRange? f (c :: rest)).bind fun (set, left) =>
        classLoop f n outer (current.add set 0) left := by
  rw [classLoop, hcs]
  split
  · next heq => cases heq
  · next heq => exact absurd (List.cons.inj heq).1 hopen
  · next heq => exact absurd (List.cons.inj heq).1 hclose
  · next heq =>
    obtain ⟨rfl, rfl⟩ := List.cons.inj heq
    exact absurd (hop _ rfl) (by decide)
  · next heq =>
    obtain ⟨rfl, rfl⟩ := List.cons.inj heq
    exact absurd (hop _ rfl) (by decide)
  · next heq =>
    obtain ⟨rfl, rfl⟩ := List.cons.inj heq
    exact absurd (hop _ rfl) (by decide)
  · cases classRange? f (c :: rest) with
    | none => rfl
    | some result => rfl

namespace Remains

/-! ## Items and names -/

theorem classItem? (h : Remains hash cs more) :
    Follows (Beside (Remains hash)) (classItem? f cs) (classItem? f more) := by
  cases h with
  | closed => exact Follows.none
  | swallowed => exact Follows.none
  | @cons c cs more h =>
      unfold Pattern.classItem?
      by_cases hc : c = '\\'
      · subst hc
        simp only
        cases hshort : Pattern.escape? f cs with
        | none => exact Follows.none
        | some result =>
            obtain ⟨⟨_, left⟩, hlong, rfl, hleft⟩ := h.escape? _ hshort
            rw [hlong]
            obtain ⟨e, rest⟩ := result
            cases e with
            | literal d isByte => exact Follows.some ⟨rfl, hleft⟩
            | set set => exact Follows.some ⟨rfl, hleft⟩
            | anchor a => exact Follows.none
      · simp only
        exact Follows.some ⟨rfl, h⟩

theorem single (h : Remains hash cs more) (item : ClassItem) :
    Follows (Beside (Remains hash))
      (match item with
        | .char c => (classChar? f c).map fun n => (CodeSet.range n n, cs)
        | .set s => some (s, cs))
      (match item with
        | .char c => (classChar? f c).map fun n => (CodeSet.range n n, more)
        | .set s => some (s, more)) := by
  cases item with
  | char c =>
      exact (Follows.same fun _ => rfl).map fun _ _ heq =>
        ⟨congrArg (fun n => CodeSet.range n n) heq, h⟩
  | set s => exact Follows.some ⟨rfl, h⟩

theorem classRange? (h : Remains hash cs more) :
    Follows (Beside (Remains hash)) (classRange? f cs) (classRange? f more) := by
  refine Follows.bind h.classItem? ?_
  rintro ⟨item, rest⟩ ⟨_, left⟩ ⟨rfl, hleft⟩
  have hskip := hleft.skip f
  have hsingle := hskip.single (f := f) item
  dsimp only at hskip hsingle ⊢
  rcases hskip.starts '-' (by decide) with ⟨next, next', hcs, hmore, hnext⟩ | ⟨hcs, hmore⟩
  · -- a hyphen at the end of the class or of an operator makes no range
    rw [hcs, hmore] at hsingle ⊢
    have hskip' := hnext.skip f
    simp only
    rcases hskip'.starts ']' (by decide) with ⟨_, _, hcs', hmore', -⟩ | ⟨hcs', -⟩
    · rw [hcs', hmore']
      exact hsingle
    rcases hskip'.starts '-' (by decide) with ⟨_, _, hcs'', hmore'', -⟩ | ⟨hcs'', -⟩
    · rw [hcs'', hmore'']
      exact hsingle
    generalize f.skip next = cs₁ at hskip' hcs' hcs'' ⊢
    generalize f.skip next' = more₁ at hskip' ⊢
    cases hskip' with
    | closed => exact Follows.none
    | swallowed => exact Follows.none
    | @cons d cs more hmore hhash =>
        -- the hyphen stands between two items
        have hclose : d ≠ ']' := fun hd => hcs' cs (by rw [hd])
        have hhyphen : d ≠ '-' := fun hd => hcs'' cs (by rw [hd])
        simp only [List.cons.injEq, hclose, hhyphen, false_and, imp_self, implies_true]
        refine Follows.bind (hmore.cons d hhash).classItem? ?_
        rintro ⟨upper, rest⟩ ⟨_, left⟩ ⟨rfl, hleft⟩
        match item, upper with
        | .char a, .char b =>
            refine Follows.bind_same fun lo _ => Follows.bind_same fun hi _ => ?_
            exact Follows.ite (fun _ => Follows.some ⟨rfl, hleft⟩) fun _ => Follows.none
        | .char a, .set s => exact Follows.none
        | .set s, _ => exact Follows.none
  · generalize f.skip rest = cs₁ at hskip hcs hsingle ⊢
    generalize f.skip left = more₁ at hskip hmore hsingle ⊢
    cases hskip with
    | closed => exact Follows.none
    | swallowed => exact Follows.none
    | @cons c cs more h =>
        have hhyphen : c ≠ '-' := fun hc => hcs cs (by rw [hc])
        simp only
        exact hsingle

theorem namedClass (h : Remains hash cs more) (negated : Bool) :
    Option.Rel (Beside (Remains hash))
      (match Pattern.splitProperty [':'] cs with
        | some (name, ']' :: rest) =>
          (asciiClass? (String.ofList name)).map fun set => (f.foldNegate negated set, rest)
        | _ => none)
      (match Pattern.splitProperty [':'] more with
        | some (name, ']' :: rest) =>
          (asciiClass? (String.ofList name)).map fun set => (f.foldNegate negated set, rest)
        | _ => none) := by
  have hsplit := h.splitProperty ':' (by decide)
  generalize Pattern.splitProperty [':'] cs = short at hsplit ⊢
  generalize Pattern.splitProperty [':'] more = long at hsplit ⊢
  cases hsplit with
  | none => exact Option.Rel.none
  | @some a b hab =>
      obtain ⟨name, rest⟩ := a
      obtain ⟨_, left⟩ := b
      obtain ⟨rfl, hleft⟩ := hab
      rcases hleft.starts ']' (by decide) with ⟨_, _, rfl, rfl, hend⟩ | ⟨hcs, hmore⟩
      · simp only
        cases asciiClass? (String.ofList name) with
        | none => exact Option.Rel.none
        | some set => exact Option.Rel.some ⟨rfl, hend⟩
      · simp only [Option.some.injEq, Prod.mk.injEq, hcs, hmore, and_false, imp_self, implies_true]
        exact Option.Rel.none

theorem namedAscii? (h : Remains hash cs more) :
    Option.Rel (Beside (Remains hash)) (namedAscii? f cs) (namedAscii? f more) := by
  rcases h.starts ':' (by decide) with ⟨rest, left, rfl, rfl, hrest⟩ | ⟨hcs, hmore⟩
  · simp only [Pattern.namedAscii?]
    rcases hrest.starts '^' (by decide) with ⟨_, _, rfl, rfl, hname⟩ | ⟨hcs, hmore⟩
    · exact hname.namedClass true
    · simp only
      exact hrest.namedClass false
  · unfold Pattern.namedAscii?
    simp only
    exact Option.Rel.none

/-! ## Classes -/

theorem leadingHyphens {c : OpenClass} (h : Remains hash cs more) (hn : cs.length ≤ n)
    (hm : more.length ≤ m) :
    Beside (Remains hash) (leadingHyphens f c n cs) (leadingHyphens f c m more) := by
  induction n generalizing cs more m c with
  | zero =>
      cases h with
      | closed => cases m <;> exact ⟨rfl, closed⟩
      | swallowed h => cases m <;> exact ⟨rfl, swallowed h⟩
      | cons c h => exact absurd hn (Nat.not_succ_le_zero _)
  | succ n ih =>
      cases h with
      | closed => cases m <;> exact ⟨rfl, closed⟩
      | swallowed h => cases m <;> exact ⟨rfl, swallowed h⟩
      | cons d h hhash =>
          obtain ⟨m, rfl⟩ := Nat.exists_eq_add_of_le' (Nat.le_trans (Nat.le_add_left 1 _) hm)
          unfold Pattern.leadingHyphens
          by_cases hd : d = '-'
          · subst hd
            exact ih (h.skip f) (f.skip_length_le_of_cons hn) (f.skip_length_le_of_cons hm)
          · simp only [List.cons.injEq, hd, false_and, imp_self, implies_true]
            exact ⟨rfl, h.cons d hhash⟩

/-- A bracket that would close the class at once is a member of it. -/
theorem leadingBracket (c : OpenClass) : ∀ {cs more : List Char}, Remains hash cs more →
    Beside (Remains hash)
      (match cs with
        | ']' :: rest => if c.count = 0 then (c.add (.range 93 93) 0, f.skip rest) else (c, cs)
        | _ => (c, cs))
      (match more with
        | ']' :: rest => if c.count = 0 then (c.add (.range 93 93) 0, f.skip rest) else (c, more)
        | _ => (c, more)) := by
  intro cs more h
  rcases h.starts ']' (by decide) with ⟨rest, left, rfl, rfl, hrest⟩ | ⟨hcs, hmore⟩
  · simp only
    split
    · exact ⟨rfl, hrest.skip f⟩
    · exact ⟨rfl, hrest.cons _ fun h => absurd h (by decide)⟩
  · simp only
    exact ⟨rfl, h⟩

/-- The members with which a class may begin, behind the sign that negates it. -/
theorem leadingMembers (negated : Bool) {cs more : List Char} (h : Remains hash cs more) :
    Beside (Remains hash)
      (let (c, cs) := Pattern.leadingHyphens f { negated } cs.length cs
      match cs with
        | ']' :: rest => if c.count = 0 then (c.add (.range 93 93) 0, f.skip rest) else (c, cs)
        | _ => (c, cs))
      (let (c, cs) := Pattern.leadingHyphens f { negated } more.length more
      match cs with
        | ']' :: rest => if c.count = 0 then (c.add (.range 93 93) 0, f.skip rest) else (c, cs)
        | _ => (c, cs)) := by
  obtain ⟨hclass, hleft⟩ :=
    h.leadingHyphens (f := f) (c := { negated }) (Nat.le_refl _) (Nat.le_refl _)
  dsimp only
  rw [hclass]
  exact leadingBracket _ hleft

theorem openClass (h : Remains hash cs more) :
    Beside (Remains hash) (openClass f cs) (openClass f more) := by
  have hskip := h.skip f
  unfold Pattern.openClass
  rcases hskip.starts '^' (by decide) with ⟨rest, left, hcs, hmore, hrest⟩ | ⟨hcs, hmore⟩
  · rw [hcs, hmore]
    exact leadingMembers true (hrest.skip f)
  · simp only
    exact leadingMembers false hskip

/-- The parenthesis behind the expression is part of no operator. -/
theorem no_operator (h : Remains hash cs more)
    (hcs : ∀ d, cs.head? = some d → operator? c d = none) :
    ∀ d, more.head? = some d → operator? c d = none := by
  cases h with
  | closed =>
      rintro d hd
      obtain rfl := Option.some.inj hd
      unfold operator?
      split
      · rfl
      · next hc =>
        obtain rfl := Decidable.not_not.mp hc
        decide
  | swallowed => exact fun d hd => nomatch hd
  | cons c h => exact hcs

/-- Classes nest within the expression, so that the longer text only asks for more fuel. -/
theorem classLoop (h : Remains hash cs more) (hnm : n ≤ m) :
    Follows (Beside (Beside (Remains hash))) (classLoop f n outer current cs)
      (classLoop f m outer current more) := by
  induction n generalizing cs more m outer current with
  | zero => exact Follows.none
  | succ n ih =>
      obtain ⟨m, rfl⟩ : ∃ k, m = k + 1 := ⟨m - 1, by omega⟩
      have hnm : n ≤ m := Nat.le_of_succ_le_succ hnm
      have hskip := h.skip f
      -- a bracket opens a named class or one within this class
      rcases hskip.starts '[' (by decide) with
        ⟨rest, left, hcs, hmore, hrest⟩ | ⟨hopen, -⟩
      · rw [Pattern.classLoop, Pattern.classLoop, hcs, hmore]
        simp only
        have hnamed := hrest.namedAscii? (f := f)
        generalize Pattern.namedAscii? f rest = short at hnamed ⊢
        generalize Pattern.namedAscii? f left = long at hnamed ⊢
        cases hnamed with
        | none =>
            obtain ⟨hclass, hleft⟩ := hrest.openClass (f := f)
            dsimp only
            rw [hclass]
            exact ih hleft hnm
        | @some a b hab =>
            obtain ⟨set, rest⟩ := a
            obtain ⟨_, left⟩ := b
            obtain ⟨rfl, hleft⟩ := hab
            exact Follows.bind_same fun set _ => ih hleft hnm
      -- a bracket closes this class
      rcases hskip.starts ']' (by decide) with
        ⟨rest, left, hcs, hmore, hrest⟩ | ⟨hclose, -⟩
      · rw [Pattern.classLoop, Pattern.classLoop, hcs, hmore]
        cases current.close? f with
        | none => exact Follows.none
        | some set =>
            cases outer with
            | nil => exact Follows.some ⟨rfl, rfl, hrest⟩
            | cons parent outer => exact ih hrest hnm
      generalize hcs : f.skip cs = cs₁ at hskip hopen hclose
      generalize hmore : f.skip more = more₁ at hskip
      cases hskip with
      | closed =>
          rw [Pattern.classLoop, hcs]
          exact Follows.none
      | swallowed =>
          rw [Pattern.classLoop, hcs]
          exact Follows.none
      | @cons c rest left hrest hhash =>
          -- an operator is two characters; without one, a member of the class is read
          by_cases hop : ∃ d rest' op, rest = d :: rest' ∧ operator? c d = some op
          · obtain ⟨d, rest', op, rfl, hop⟩ := hop
            cases hrest with
            | cons d hrest =>
                rw [classLoop_operator hcs hop, classLoop_operator hmore hop]
                exact ih hrest hnm
          · have hnone : ∀ d, rest.head? = some d → operator? c d = none := by
              intro d hd
              obtain ⟨rest', rfl⟩ := List.head?_eq_some_iff.mp hd
              rw [Option.eq_none_iff_forall_ne_some]
              exact fun op heq => hop ⟨d, rest', op, rfl, heq⟩
            have hopen : c ≠ '[' := fun hc => hopen rest (by rw [hc])
            have hclose : c ≠ ']' := fun hc => hclose rest (by rw [hc])
            rw [classLoop_member hcs hopen hclose hnone,
              classLoop_member hmore hopen hclose (hrest.no_operator hnone)]
            refine Follows.bind (hrest.cons c hhash).classRange? ?_
            rintro ⟨set, rest⟩ ⟨_, left⟩ ⟨rfl, hleft⟩
            exact ih hleft hnm

theorem bracket? (h : Remains hash cs more) :
    Follows (Beside (Beside (Remains hash))) (bracket? f cs) (bracket? f more) := by
  obtain ⟨hclass, hleft⟩ := h.openClass (f := f)
  simp only [Pattern.bracket?]
  rw [hclass]
  exact hleft.classLoop (Nat.succ_le_succ hleft.length_le)

end Remains

end SourceEdit.Pattern
