import SourceEdit.Proofs.Yaml.Ending.Quoted
import SourceEdit.Yaml.Token.Plain

/-!
# Plain scalars at the end of a text

A plain scalar may run to the end of the text. With the line of a marker behind, the line feed is
one more line end after it, which its text does not take up.
-/

namespace SourceEdit.Yaml

open Cursor (Kept Meets marked length_marked skip_marked peek_marked peek_marked_of_some
  peek_marked_beq peekAt_one_marked rest_eq_nil_iff)
open Outcome (Follows Beside)

variable {c c' : Cursor} {f : Folding} {x : Char} {flow : Bool} {indent m n : Nat}

theorem plainRun_marked (hn : c.rest.length < n) (hm : c.rest.length < m) :
    Follows (Beside Kept) (plainRun flow f n c) (plainRun flow f m c.marked) := by
  induction n generalizing c f m with
  | zero => exact absurd hn (Nat.not_lt_zero _)
  | succ n ih =>
      obtain ⟨m, rfl⟩ : ∃ k, m = k + 1 := ⟨m - 1, by omega⟩
      have hstop : Follows (Beside Kept) (some (f, c)) (some (f, c.marked)) :=
        Follows.some ⟨rfl, rfl⟩
      rw [plainRun, plainRun, peek_marked]
      cases hx : c.peek with
      | none => exact hstop
      | some x =>
          dsimp only [Option.getD_some]
          refine Follows.ite (fun _ => hstop) fun _ => ?_
          rw [skip_marked hx, peekAt_one_marked hx, ← Cursor.peek_skip hx,
            Cursor.isBlankOrEnd_peek_marked, Cursor.any_peek_marked c.skip (by decide)]
          refine Follows.ite (fun _ => Follows.none) fun _ => ?_
          refine Follows.ite (fun _ => hstop) fun _ => ?_
          have hlength := Cursor.length_skip_lt hx
          exact ih (by omega) (by omega)

/-! ## Gaps -/

theorem Folding.text_take : (f.take c).1.text = f.text := by
  unfold Folding.take
  split
  · split
    · split <;> rfl
    · split <;> rfl
  · rfl

/-- Where a gap ends: at the same character, or at the end of the text and the marker. -/
def MeetsGap (a b : Folding × Cursor) : Prop :=
  b.1.text = a.1.text ∧
    ((a.2.rest ≠ [] ∧ b = (a.1, a.2.marked)) ∨ (a.2.rest = [] ∧ b.2.AtMarker))

theorem plainGap_of_end (h : c.rest = []) (n : Nat) : plainGap indent f n c = some (f, c) := by
  cases n with
  | zero => rfl
  | succ n => rw [plainGap, rest_eq_nil_iff.mp h]

theorem plainGap_atMarker (h : c.AtMarker) (n : Nat) : plainGap indent f n c = some (f, c) := by
  cases n with
  | zero => rfl
  | succ n =>
      rw [plainGap, h.peek_eq]
      rfl

theorem plainGap_marked_of_end (indent : Nat) (f : Folding) (h : c.rest = []) (hn : 0 < n) :
    ∃ g c', plainGap indent f n c.marked = some (g, c') ∧ g.text = f.text ∧ c'.AtMarker := by
  obtain ⟨n, rfl⟩ : ∃ k, n = k + 1 := ⟨n - 1, by omega⟩
  have hpeek := Cursor.peek_marked_of_end h
  have hmarker : (f.take c.marked).2.AtMarker := by
    have hskip := Cursor.atMarker_of_end h
    unfold Folding.take
    rw [hpeek]
    dsimp only
    rw [if_neg (by decide)]
    split
    · exact hskip
    · exact hskip
  have hbreak : (isBlank '\n' || isBreak '\n') = true := by decide
  have htab : ('\n' == '\t') = false := by decide
  refine ⟨(f.take c.marked).1, (f.take c.marked).2, ?_, Folding.text_take, hmarker⟩
  rw [plainGap, hpeek]
  dsimp only
  rw [if_pos hbreak, htab, Bool.and_false, if_neg Bool.false_ne_true]
  exact plainGap_atMarker hmarker n

theorem plainGap_marked (hn : c.rest.length < n) (hm : c.rest.length < m) :
    Follows MeetsGap (plainGap indent f n c) (plainGap indent f m c.marked) := by
  induction n generalizing c f m with
  | zero => exact absurd hn (Nat.not_lt_zero _)
  | succ n ih =>
      by_cases hend : c.rest = []
      · obtain ⟨g, c', hlong, htext, hmarker⟩ :=
          plainGap_marked_of_end indent f hend (by omega : 0 < m)
        rw [plainGap_of_end hend, hlong]
        exact Follows.some ⟨htext, Or.inr ⟨hend, hmarker⟩⟩
      obtain ⟨m, rfl⟩ : ∃ k, m = k + 1 := ⟨m - 1, by omega⟩
      obtain ⟨x, hx⟩ := Option.ne_none_iff_exists'.mp (mt rest_eq_nil_iff.mpr hend)
      rw [plainGap, plainGap, peek_marked_of_some hx, hx]
      dsimp only
      by_cases hgap : (isBlank x || isBreak x) = true
      · rw [if_pos hgap, if_pos hgap]
        refine Follows.ite (fun _ => Follows.none) fun _ => ?_
        have hlength := Folding.length_take_lt (f := f) hx hgap
        obtain ⟨htake, hmeets⟩ := Folding.take_marked (f := f) hx
        have htext : (f.take c).1.text = f.text := Folding.text_take
        rcases hmeets with hkept | ⟨hend', hmarker⟩
        · rw [← htake, hkept]
          exact ih (by omega) (by omega)
        · rw [plainGap_of_end hend', plainGap_atMarker hmarker, ← htake]
          exact Follows.some ⟨rfl, Or.inr ⟨hend', hmarker⟩⟩
      · rw [if_neg hgap, if_neg hgap]
        exact Follows.some ⟨rfl, Or.inl ⟨hend, rfl⟩⟩

/-! ## Scalars -/

def MeetsPlain (a b : String × Bool × Cursor) : Prop :=
  b.1 = a.1 ∧ (b.2 = (a.2.1, a.2.2.marked) ∨ (a.2.2.rest = [] ∧ b.2.2.AtMarker))

theorem plainLoop_atMarker (h : c.AtMarker) (hn : 0 < n) :
    plainLoop flow indent f n c = some (String.ofList f.text.reverse, f.broken, c) := by
  obtain ⟨n, rfl⟩ : ∃ k, n = k + 1 := ⟨n - 1, by omega⟩
  rw [plainLoop, h.atDocumentMarker_eq, Bool.true_or]
  rfl

theorem plainLoop_of_end (h : c.rest = []) (hn : 0 < n) :
    plainLoop flow indent f n c = some (String.ofList f.text.reverse, f.broken, c) := by
  obtain ⟨n, rfl⟩ : ∃ k, n = k + 1 := ⟨n - 1, by omega⟩
  have hpeek := rest_eq_nil_iff.mp h
  have hrun : plainRun flow f (c.rest.length + 1) c = some (f, c) := by
    rw [plainRun, hpeek]
  have hmarker : c.atDocumentMarker = false := by
    rw [Cursor.atDocumentMarker, Cursor.atMarker, Cursor.atMarker, hpeek]
    simp
  rw [plainLoop, hmarker, hrun, hpeek]
  show (if !c.peek.any _ then _ else _) = _
  rw [hpeek]
  rfl

theorem plainLoop_marked (hnm : n < m) :
    Follows MeetsPlain (plainLoop flow indent f n c) (plainLoop flow indent f m c.marked) := by
  induction n generalizing c f m with
  | zero => exact Follows.none
  | succ n ih =>
      obtain ⟨m, rfl⟩ : ∃ k, m = k + 1 := ⟨m - 1, by omega⟩
      have hpos : 0 < m := by omega
      rw [plainLoop, plainLoop, Cursor.atDocumentMarker_marked, peek_marked_beq c (by decide)]
      dsimp only
      refine Follows.ite (fun _ => Follows.some ⟨rfl, Or.inl rfl⟩) fun _ => ?_
      refine Follows.bind (plainRun_marked (Nat.lt_add_one _) (by rw [length_marked]; omega)) ?_
      rintro ⟨g, c₁⟩ ⟨g', c₁'⟩ ⟨hg, hkept⟩
      obtain rfl : g = g' := hg
      obtain rfl : c₁' = c₁.marked := hkept
      dsimp only
      by_cases hend : c₁.rest = []
      · -- the line feed is a gap, and the marker behind it ends the scalar
        obtain ⟨g', c', hlong, htext, hmarker⟩ :=
          plainGap_marked_of_end indent g hend (Nat.succ_pos c₁.marked.rest.length)
        have hgap : ¬ (!(some '\n').any fun x => isBlank x || isBreak x) = true := by decide
        rw [rest_eq_nil_iff.mp hend, Cursor.peek_marked_of_end hend, hlong, if_neg hgap]
        have hdone : MeetsPlain (String.ofList g.text.reverse, g.broken, c₁)
            (String.ofList g'.text.reverse, g'.broken, c') :=
          ⟨congrArg (fun t : List Char => String.ofList t.reverse) htext, Or.inr ⟨hend, hmarker⟩⟩
        show Follows MeetsPlain _ (if _ then _ else plainLoop flow indent g' m c')
        rw [plainLoop_atMarker hmarker hpos, ite_self]
        exact Follows.some hdone
      · obtain ⟨x, hx⟩ := Option.ne_none_iff_exists'.mp (mt rest_eq_nil_iff.mpr hend)
        rw [peek_marked_of_some hx, hx]
        refine Follows.ite (fun _ => Follows.some ⟨rfl, Or.inl rfl⟩) fun _ => ?_
        refine Follows.bind (plainGap_marked (Nat.lt_add_one _) (by rw [length_marked]; omega)) ?_
        rintro ⟨g₁, c₂⟩ ⟨g₁', c₂'⟩ ⟨htext, ⟨-, hkept⟩ | ⟨hend₂, hmarker⟩⟩
        · obtain ⟨rfl, rfl⟩ := Prod.mk.inj hkept
          refine Follows.ite (fun _ => Follows.some ⟨rfl, Or.inl rfl⟩) fun _ => ?_
          exact ih (by omega)
        · have hdone : MeetsPlain (String.ofList g₁.text.reverse, g₁.broken, c₂)
              (String.ofList g₁'.text.reverse, g₁'.broken, c₂') :=
            ⟨congrArg (fun t : List Char => String.ofList t.reverse) htext, Or.inr ⟨hend₂, hmarker⟩⟩
          dsimp only
          rw [plainLoop_atMarker hmarker hpos, ite_self]
          cases n with
          | zero =>
              split
              · exact Follows.some hdone
              · exact Follows.none
          | succ n =>
              rw [plainLoop_of_end hend₂ (Nat.succ_pos n), ite_self]
              exact Follows.some hdone

/-- A plain scalar has the same text, whether the text ends behind it or a line with a marker
follows. -/
theorem plain?_marked (c : Cursor) :
    Follows MeetsPlain (plain? flow indent c) (plain? flow indent c.marked) := by
  unfold plain?
  exact plainLoop_marked (by rw [length_marked]; omega)

end SourceEdit.Yaml
