import SourceEdit.Text.Digit

/-!
# Decimals

How numbers are written: a decimal is one or more digits, of which the first is a zero only if there
is no other, and an integer is a decimal with a minus sign in front if it is negative.
-/

namespace SourceEdit.Text

/-! ## Digits -/

theorem digit?_of_isDigit {c : Char} (h : c.isDigit = true) :
    digit? 10 c = some (c.toNat - '0'.toNat) := by
  have hvalue : c.toNat - '0'.toNat < 10 := by
    have hbounds := Char.isDigit_iff_toNat.mp h
    have hzero : '0'.toNat = 48 := rfl
    have hnine : '9'.toNat = 57 := rfl
    omega
  rw [digit?, if_pos h, Option.filter_some, if_pos (decide_eq_true hvalue)]

theorem digit?_digitChar {n : Nat} (hn : n < 16) : digit? 16 (Nat.digitChar n) = some n := by
  revert n
  decide

theorem digit?_toUpper_digitChar {n : Nat} (hn : n < 16) :
    digit? 16 (Nat.digitChar n).toUpper = some n := by
  revert n
  decide

theorem charOf?_toNat (c : Char) : charOf? c.toNat = some c := by
  have hvalid : c.toNat.isValidChar := c.valid
  rw [charOf?, if_pos hvalid, Char.ofNat_toNat]

/-! ## Numbers -/

theorem isDigit_of_mem_toDigits {n : Nat} {c : Char} (h : c ∈ Nat.toDigits 10 n) :
    c.isDigit = true :=
  Nat.isDigit_of_mem_toDigits (by decide) (by decide) h

/-- The decimal of a number starts with a zero only if it is the zero. -/
theorem toDigits_zero_cons {n : Nat} {ds : List Char} (h : Nat.toDigits 10 n = '0' :: ds) :
    ds = [] := by
  induction n using Nat.strongRecOn generalizing ds with
  | ind n ih =>
      rw [Nat.toDigits_eq_if (by decide)] at h
      split at h
      · exact (List.cons.inj h).2.symm
      · next hn =>
        cases hq : Nat.toDigits 10 (n / 10) with
        | nil => exact absurd hq (by simp)
        | cons c cs =>
            rw [hq, List.cons_append] at h
            obtain ⟨rfl, _⟩ := List.cons.inj h
            obtain rfl := ih (n / 10) (by omega) hq
            have hzero : n / 10 = 0 := by
              have hval := Nat.ofDigitChars_ten_toDigits (n := n / 10)
              rw [hq] at hval
              exact hval.symm
            omega

theorem toDigits_eq_cons (n : Nat) :
    ∃ d ds, Nat.toDigits 10 n = d :: ds ∧ d.isDigit = true ∧ (d = '0' → ds = []) := by
  cases h : Nat.toDigits 10 n with
  | nil => exact absurd h (by simp)
  | cons d ds =>
      refine ⟨d, ds, rfl, isDigit_of_mem_toDigits (h ▸ List.mem_cons_self ..), ?_⟩
      rintro rfl
      exact toDigits_zero_cons h

theorem foldlM_digit? {ds : List Char} (h : ∀ c ∈ ds, c.isDigit = true) (acc : Nat) :
    ds.foldlM (fun acc c => (digit? 10 c).map (acc * 10 + ·)) acc =
      some (Nat.ofDigitChars 10 ds acc) := by
  induction ds generalizing acc with
  | nil => rfl
  | cons c ds ih =>
      rw [List.foldlM_cons, digit?_of_isDigit (h c (by simp)), Nat.ofDigitChars_cons,
        Nat.mul_comm 10 acc]
      exact ih (fun d hd => h d (List.mem_cons_of_mem _ hd)) _

theorem natural?_toDigits (n : Nat) : natural? 10 (Nat.toDigits 10 n) = some n := by
  rw [natural?, if_neg (by simp), foldlM_digit? fun c hc => isDigit_of_mem_toDigits hc,
    Nat.ofDigitChars_ten_toDigits]

theorem toList_toString (n : Int) : (toString n).toList =
    if 0 ≤ n then Nat.toDigits 10 n.toNat else '-' :: Nat.toDigits 10 (-n).toNat := by
  rw [Int.toString_eq_repr, Int.repr_eq_if]
  split
  · rw [Nat.toList_repr]
  · rw [String.toList_append, Nat.toList_repr]
    rfl

theorem head?_toString (n : Int) : ∃ c rest, (toString n).toList = c :: rest ∧
    (c = '-' ∨ c.isDigit = true) := by
  rw [toList_toString]
  split
  · obtain ⟨d, ds, heq, hdigit, _⟩ := toDigits_eq_cons n.toNat
    exact ⟨d, ds, heq, Or.inr hdigit⟩
  · exact ⟨'-', _, rfl, Or.inl rfl⟩

/-- What an integer starts with is none of some marks, if these are neither minus signs nor
digits. -/
theorem notMem_of_startsInteger {c : Char} {marks : List Char} (hc : c = '-' ∨ c.isDigit = true)
    (hmarks : marks.all (fun x => x != '-' && !x.isDigit) = true) : c ∉ marks := by
  intro hmem
  have hmark := List.all_eq_true.mp hmarks c hmem
  rcases hc with rfl | hdigit
  · cases hmark
  · rw [hdigit, Bool.not_true, Bool.and_false] at hmark
    cases hmark

end SourceEdit.Text
