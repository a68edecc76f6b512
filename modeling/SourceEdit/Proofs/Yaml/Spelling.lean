import Mathlib.Algebra.Group.Int.Defs
import SourceEdit.Manifest.Reader
import SourceEdit.Proofs.Text.Decimal

/-!
# The spelling in which a value is shown

A plain scalar that is no text is shown in one spelling of its value. The decimal of an integer is
read back as that integer, so the scalars shown as they were written are the texts, the two words
`true` and `false`, the decimals of the integers in range, and the real numbers written as they are
rendered.
-/

namespace SourceEdit.Yaml

open Text

/-! ## Decimals of integers -/

theorem isSign_of_isDigit {d : Char} (h : d.isDigit = true) : isSign d = false := by
  rw [isSign, Bool.or_eq_false_iff, beq_eq_false_iff_ne, beq_eq_false_iff_ne]
  constructor <;> rintro rfl <;> exact absurd h (by decide)

theorem marked?_toDigits (n : Nat) : marked? (Nat.toDigits 10 n) = none := by
  obtain ⟨d, ds, heq, _, hzero⟩ := toDigits_eq_cons n
  rw [heq]
  by_cases hd : d = '0'
  · rw [hd, hzero hd]
    rfl
  · unfold marked?
    split <;> first | rfl | next h => exact absurd (List.cons.inj h).1 hd

theorem isZeroLed_toDigits (n : Nat) :
    isZeroLed (Nat.toDigits 10 n) = false ∧ isZeroLed ('-' :: Nat.toDigits 10 n) = false := by
  obtain ⟨d, ds, heq, hdigit, hzero⟩ := toDigits_eq_cons n
  have hsigned : isZeroLed ('-' :: d :: ds) = false := by
    simp only [isZeroLed, show isSign '-' = true from rfl, if_true]
    split
    · next h =>
      obtain ⟨rfl, hds⟩ := List.cons.inj h
      exact absurd (hzero rfl) (by rw [hds]; simp)
    · rfl
  rw [heq]
  refine ⟨?_, hsigned⟩
  simp only [isZeroLed, isSign_of_isDigit hdigit]
  exact hsigned

/-- **The decimal of an integer** is read as that integer. -/
theorem integer?_toString (n : Int) : integer? (toString n).toList = some n := by
  rw [toList_toString]
  split
  · next hn =>
    obtain ⟨d, ds, heq, hdigit, _⟩ := toDigits_eq_cons n.toNat
    have hunsigned : ∀ c rest, isSign c = true → Nat.toDigits 10 n.toNat = c :: rest → False := by
      intro c rest hc h
      rw [heq] at h
      obtain ⟨rfl, _⟩ := List.cons.inj h
      rw [isSign_of_isDigit hdigit] at hc
      exact absurd hc (by decide)
    have hread : integer? (Nat.toDigits 10 n.toNat) = some (n.toNat : Int) := by
      rw [integer?.eq_3 _ (hunsigned '-' · rfl) (hunsigned '+' · rfl), marked?_toDigits]
      simp only [(isZeroLed_toDigits _).1, natural?_toDigits]
      rfl
    rw [hread, Int.toNat_of_nonneg hn]
  · next hn =>
    show ((marked? (Nat.toDigits 10 (-n).toNat) <|>
      if isZeroLed ('-' :: Nat.toDigits 10 (-n).toNat) then none
      else natural? 10 (Nat.toDigits 10 (-n).toNat)).map fun k => -(k : Int)) = some n
    rw [marked?_toDigits, (isZeroLed_toDigits _).2, natural?_toDigits]
    show some (-((-n).toNat : Int)) = some n
    congr 1
    omega

/-- A decimal is none of the words for null and the truth values. -/
theorem toString_ne_word (n : Int) {word : String} {c : Char} {rest : List Char}
    (hword : word.toList = c :: rest) (hc : c ≠ '-' ∧ c.isDigit = false) : toString n ≠ word := by
  intro h
  obtain ⟨d, ds, heq, hd⟩ := head?_toString n
  rw [h, hword] at heq
  obtain ⟨rfl, _⟩ := List.cons.inj heq
  rcases hd with hd | hd
  · exact hc.1 hd
  · rw [hc.2] at hd
    exact absurd hd (by decide)

/-- The numbers of the widest words that are kept whole. -/
theorem isWithin_sixtyThree_iff {n : Int} :
    isWithin 63 n = true ↔ -(2 ^ 63 : Int) ≤ n ∧ n < 2 ^ 64 := by
  rw [isWithin, Bool.and_eq_true, decide_eq_true_iff, decide_eq_true_iff]
  exact Iff.rfl

theorem meaning_toString {n : Int} (hlo : -(2 ^ 63 : Int) ≤ n) (hhi : n < 2 ^ 64) :
    meaning (toString n) = .integer n := by
  have hnull : isNull (toString n) = false := by
    simp only [isNull, Bool.or_eq_false_iff, beq_eq_false_iff_ne]
    refine ⟨⟨⟨?_, ?_⟩, ?_⟩, ?_⟩ <;> exact toString_ne_word n rfl (by decide)
  have hflag : flag? (toString n) = none := by
    have htrue :
        (toString n == "true" || toString n == "True" || toString n == "TRUE") = false := by
      simp only [Bool.or_eq_false_iff, beq_eq_false_iff_ne]
      refine ⟨⟨?_, ?_⟩, ?_⟩ <;> exact toString_ne_word n rfl (by decide)
    have hfalse : (toString n == "false" || toString n == "False" || toString n == "FALSE") =
        false := by
      simp only [Bool.or_eq_false_iff, beq_eq_false_iff_ne]
      refine ⟨⟨?_, ?_⟩, ?_⟩ <;> exact toString_ne_word n rfl (by decide)
    rw [flag?, htrue, hfalse]
    rfl
  have hempty : (toString n).toList.isEmpty = false := by
    obtain ⟨c, rest, heq, _⟩ := head?_toString n
    rw [heq]
    rfl
  have hrange : isWithin 63 n = true := isWithin_sixtyThree_iff.mpr ⟨hlo, hhi⟩
  simp only [meaning, hempty, hnull, hflag, integer?_toString, hrange, Bool.or_false,
    Bool.false_eq_true, if_false, if_true]

/-! ## Canonical scalars -/

/-- Whether a plain scalar is a text, or spelled as its value is shown: in lower case for a truth
value, as the decimal of an integer in range, or as a real number is rendered. -/
def IsCanonical (t : String) : Prop :=
  meaning t = .text ∨ t = "true" ∨ t = "false" ∨
    (∃ n : Int, -(2 ^ 63 : Int) ≤ n ∧ n < 2 ^ 64 ∧ t = toString n) ∨
    ∃ r, meaning t = .real r ∧ t = r.render

theorem integer_in_range {t : String} {n : Int} (h : meaning t = .integer n) :
    -(2 ^ 63 : Int) ≤ n ∧ n < 2 ^ 64 := by
  unfold meaning at h
  dsimp only at h
  split at h
  · cases h
  · split at h
    · cases h
    · split at h
      · split at h
        · next hrange =>
          cases h
          exact isWithin_sixtyThree_iff.mp hrange
        · split at h
          · cases h
          · next m _ _ _ =>
            cases hr : real? t.toList <;> rw [hr] at h <;> cases h
      · split at h
        · cases h
        · cases hr : real? t.toList <;> rw [hr] at h <;> cases h

/-- **What a scalar is shown as** is the scalar itself exactly if it is canonical. -/
theorem shown?_eq_self_iff (t : String) :
    Manifest.shown? t (meaning t) = some t ↔ IsCanonical t := by
  constructor
  · intro h
    cases hm : meaning t with
    | null => rw [hm] at h; cases h
    | flag b =>
        rw [hm] at h
        cases b with
        | true => exact Or.inr (Or.inl (Option.some.inj h).symm)
        | false => exact Or.inr (Or.inr (Or.inl (Option.some.inj h).symm))
    | integer n =>
        rw [hm] at h
        obtain ⟨hlo, hhi⟩ := integer_in_range hm
        exact Or.inr (Or.inr (Or.inr (Or.inl ⟨n, hlo, hhi, (Option.some.inj h).symm⟩)))
    | wideInteger => rw [hm] at h; cases h
    | real r =>
        rw [hm] at h
        exact Or.inr (Or.inr (Or.inr (Or.inr ⟨r, hm, (Option.some.inj h).symm⟩)))
    | text => exact Or.inl hm
  · rintro (hm | rfl | rfl | ⟨n, hlo, hhi, rfl⟩ | ⟨r, hm, ht⟩)
    · rw [hm]
      rfl
    · rfl
    · rfl
    · rw [meaning_toString hlo hhi]
      rfl
    · rw [hm]
      exact congrArg some ht.symm

end SourceEdit.Yaml
