import SourceEdit.Proofs.Yaml.Spelling

/-!
# Characters of values

Numbers, truth values and what they are shown as hold neither blanks nor colons, so taking away
spaces, trimming and cutting at colons leave them as they are.
-/

namespace SourceEdit.Yaml

/-- Visible characters of one byte, but no colon. -/
def IsGraphic (c : Char) : Prop := 33 ≤ c.toNat ∧ c.toNat ≤ 126 ∧ c ≠ ':'

instance (c : Char) : Decidable (IsGraphic c) := inferInstanceAs (Decidable (_ ∧ _))

def AreGraphic (cs : List Char) : Prop := ∀ c ∈ cs, IsGraphic c

instance (cs : List Char) : Decidable (AreGraphic cs) :=
  List.decidableBAll IsGraphic cs

theorem areGraphic_cons {c : Char} {cs : List Char} :
    AreGraphic (c :: cs) ↔ IsGraphic c ∧ AreGraphic cs :=
  List.forall_mem_cons

theorem areGraphic_append {cs ds : List Char} :
    AreGraphic (cs ++ ds) ↔ AreGraphic cs ∧ AreGraphic ds :=
  List.forall_mem_append

theorem isGraphic_of_isDigit {c : Char} (h : c.isDigit = true) : IsGraphic c := by
  rw [Char.isDigit_iff_toNat] at h
  obtain ⟨hlo, hhi⟩ : 48 ≤ c.toNat ∧ c.toNat ≤ 57 := h
  refine ⟨by omega, by omega, ?_⟩
  rintro rfl
  exact absurd hhi (by decide)

theorem IsGraphic.not_isBlank {c : Char} (h : IsGraphic c) : Text.isBlank c = false := by
  obtain ⟨hlo, hhi, _⟩ := h
  simp only [Text.isBlank, Bool.or_eq_false_iff, Bool.and_eq_false_iff, decide_eq_false_iff_not,
    beq_eq_false_iff_ne]
  omega

/-! ## What is read as a number -/

theorem isGraphic_of_digit? {base d : Nat} {c : Char} (h : Text.digit? base c = some d) :
    IsGraphic c := by
  have hrange : (48 ≤ c.toNat ∧ c.toNat ≤ 57) ∨ (97 ≤ c.toNat ∧ c.toNat ≤ 122) ∨
      (65 ≤ c.toNat ∧ c.toNat ≤ 90) := by
    unfold Text.digit? at h
    dsimp only at h
    split at h
    · next hc => exact Or.inl (Char.isDigit_iff_toNat.mp hc)
    · split at h
      · next hc => exact Or.inr (Or.inl hc)
      · split at h
        · next hc => exact Or.inr (Or.inr hc)
        · cases h
  refine ⟨by omega, by omega, ?_⟩
  rintro rfl
  exact absurd hrange (by decide)

theorem areGraphic_of_foldlM {base : Nat} {cs : List Char} {acc n : Nat}
    (h : cs.foldlM (fun acc c => (Text.digit? base c).map (acc * base + ·)) acc = some n) :
    AreGraphic cs := by
  induction cs generalizing acc with
  | nil => simp [AreGraphic]
  | cons c cs ih =>
      rw [List.foldlM_cons] at h
      obtain ⟨acc', hstep, hrest⟩ := Option.bind_eq_some_iff.mp h
      obtain ⟨d, hd, _⟩ := Option.map_eq_some_iff.mp hstep
      exact areGraphic_cons.mpr ⟨isGraphic_of_digit? hd, ih hrest⟩

theorem areGraphic_of_natural? {base n : Nat} {cs : List Char} (h : Text.natural? base cs = some n) :
    AreGraphic cs := by
  rw [Text.natural?] at h
  split at h
  · cases h
  · exact areGraphic_of_foldlM h

theorem areGraphic_of_marked? {cs : List Char} {n : Nat} (h : marked? cs = some n) :
    AreGraphic cs := by
  unfold marked? at h
  split at h
  · exact areGraphic_cons.mpr ⟨by decide, areGraphic_cons.mpr ⟨by decide, areGraphic_of_natural? h⟩⟩
  · exact areGraphic_cons.mpr ⟨by decide, areGraphic_cons.mpr ⟨by decide, areGraphic_of_natural? h⟩⟩
  · exact areGraphic_cons.mpr ⟨by decide, areGraphic_cons.mpr ⟨by decide, areGraphic_of_natural? h⟩⟩
  · cases h

/-- The digits of an integer, marked or decimal. -/
theorem areGraphic_of_digits {zeroLed : Bool} {cs : List Char} {n : Nat}
    (h : (marked? cs <|> if zeroLed then none else Text.natural? 10 cs) = some n) : AreGraphic cs := by
  cases hm : marked? cs with
  | some k => exact areGraphic_of_marked? hm
  | none =>
      rw [hm] at h
      replace h : (if zeroLed then none else Text.natural? 10 cs) = some n := h
      split at h
      · cases h
      · exact areGraphic_of_natural? h

theorem areGraphic_of_integer? {cs : List Char} {n : Int} (h : integer? cs = some n) :
    AreGraphic cs := by
  unfold integer? at h
  dsimp only at h
  split at h <;>
  · obtain ⟨k, hk, _⟩ := Option.map_eq_some_iff.mp h
    obtain ⟨a, ha, _⟩ := Option.bind_eq_some_iff.mp hk
    first
    | exact areGraphic_cons.mpr ⟨by decide, areGraphic_of_digits ha⟩
    | exact areGraphic_of_digits ha

theorem areGraphic_of_exponent? {cs : List Char} {e : Int} (h : exponent? cs = some e) :
    AreGraphic cs := by
  unfold exponent? at h
  split at h
  · simp [AreGraphic]
  · next c rest =>
    split at h
    · next hc =>
      have hletter : IsGraphic c := by
        rw [Bool.or_eq_true, beq_iff_eq, beq_iff_eq] at hc
        rcases hc with rfl | rfl <;> decide
      refine areGraphic_cons.mpr ⟨hletter, ?_⟩
      split at h <;> obtain ⟨i, hi, _⟩ := Option.map_eq_some_iff.mp h <;>
        obtain ⟨n, hn, _⟩ := Option.bind_eq_some_iff.mp hi
      · exact areGraphic_cons.mpr ⟨by decide, areGraphic_of_natural? hn⟩
      · exact areGraphic_cons.mpr ⟨by decide, areGraphic_of_natural? hn⟩
      · exact areGraphic_of_natural? hn
    · cases h

theorem areGraphic_takeWhile_isDigit (cs : List Char) :
    AreGraphic (cs.takeWhile Char.isDigit) := fun _ hc =>
  isGraphic_of_isDigit (List.all_eq_true.mp (List.all_takeWhile (l := cs)) _ hc)

theorem areGraphic_of_decimal? {cs : List Char} {b : Decimal.Binary64} (h : decimal? cs = some b) :
    AreGraphic cs := by
  have hsplit : cs = cs.takeWhile Char.isDigit ++ cs.dropWhile Char.isDigit :=
    List.takeWhile_append_dropWhile.symm
  rw [hsplit, areGraphic_append]
  refine ⟨areGraphic_takeWhile_isDigit cs, ?_⟩
  unfold decimal? at h
  dsimp only at h
  split at h
  · next rest hrest =>
    split at h
    · cases h
    · obtain ⟨e, he, _⟩ := Option.bind_eq_some_iff.mp h
      rw [hrest, ← List.takeWhile_append_dropWhile (p := Char.isDigit) (l := rest)]
      exact areGraphic_cons.mpr ⟨by decide, areGraphic_append.mpr
        ⟨areGraphic_takeWhile_isDigit rest, areGraphic_of_exponent? he⟩⟩
  · split at h
    · cases h
    · obtain ⟨e, he, _⟩ := Option.bind_eq_some_iff.mp h
      exact areGraphic_of_exponent? he

theorem areGraphic_of_real? {cs : List Char} {r : Real} (h : real? cs = some r) :
    AreGraphic cs := by
  have hword : ∀ {word : String}, String.ofList cs = word → AreGraphic word.toList →
      AreGraphic cs := by
    rintro word rfl hall
    rwa [String.toList_ofList] at hall
  unfold real? at h
  split at h
  iterate 12 exact hword (by assumption) (by decide)
  split at h <;> obtain ⟨b, hb, _⟩ := Option.map_eq_some_iff.mp h
  · exact areGraphic_cons.mpr ⟨by decide, areGraphic_of_decimal? hb⟩
  · exact areGraphic_cons.mpr ⟨by decide, areGraphic_of_decimal? hb⟩
  · exact areGraphic_of_decimal? hb

theorem areGraphic_of_flag? {t : String} {b : Bool} (h : flag? t = some b) :
    AreGraphic t.toList := by
  unfold flag? at h
  split at h
  · next hword =>
    simp only [Bool.or_eq_true, beq_iff_eq] at hword
    rcases hword with (rfl | rfl) | rfl <;> decide
  · split at h
    · next hword =>
      simp only [Bool.or_eq_true, beq_iff_eq] at hword
      rcases hword with (rfl | rfl) | rfl <;> decide
    · cases h

/-- **A scalar that is neither null nor text** holds graphic characters only. -/
theorem areGraphic_of_meaning {t : String} (hnull : meaning t ≠ .null)
    (htext : meaning t ≠ .text) : AreGraphic t.toList := by
  have hreal : ((real? t.toList).map Meaning.real).getD .text ≠ .text → AreGraphic t.toList := by
    intro h
    cases hr : real? t.toList with
    | some r => exact areGraphic_of_real? hr
    | none => rw [hr] at h; exact absurd rfl h
  unfold meaning at hnull htext
  dsimp only at hnull htext
  split at hnull
  · exact absurd rfl hnull
  · next hblank =>
    rw [if_neg hblank] at htext
    cases hf : flag? t with
    | some b => exact areGraphic_of_flag? hf
    | none =>
        rw [hf] at htext
        cases hi : integer? t.toList with
        | some n => exact areGraphic_of_integer? hi
        | none =>
            rw [hi] at htext
            replace htext : (if isZeroLed t.toList then Meaning.text
              else ((real? t.toList).map Meaning.real).getD .text) ≠ .text := htext
            split at htext
            · exact absurd rfl htext
            · exact hreal htext

/-! ## What a value is shown as -/

theorem areGraphic_toString (n : Int) : AreGraphic (toString n).toList :=
  areGraphic_of_integer? (integer?_toString n)

theorem areGraphic_layout (digits : Nat) (exponent : Int) :
    AreGraphic (Decimal.layout digits exponent).toList := by
  have hdigits : AreGraphic (toString digits).toList := areGraphic_toString (digits : Int)
  have hzeros : ∀ n, AreGraphic (List.replicate n '0') := by
    intro n c hc
    rw [List.eq_of_mem_replicate hc]
    decide
  have hexponent := areGraphic_toString ((toString digits).length + exponent - 1)
  unfold Decimal.layout
  dsimp only
  split
  · simp only [String.toList_append, String.toList_ofList, areGraphic_append]
    exact ⟨⟨hdigits, hzeros _⟩, by decide⟩
  · split
    · simp only [String.toList_append, String.toList_ofList, areGraphic_append]
      exact ⟨⟨fun c hc => hdigits c (List.mem_of_mem_take hc), by decide⟩,
        fun c hc => hdigits c (List.mem_of_mem_drop hc)⟩
    · split
      · simp only [String.toList_append, String.toList_ofList, areGraphic_append]
        exact ⟨⟨by decide, hzeros _⟩, hdigits⟩
      · split
        · next d heq =>
          rw [heq] at hdigits
          simp only [String.toList_append, String.toList_singleton, areGraphic_append]
          exact ⟨hdigits, by decide, hexponent⟩
        · next d more heq =>
          rw [heq, areGraphic_cons] at hdigits
          simp only [String.toList_append, String.toList_singleton, String.toList_ofList,
            areGraphic_append]
          exact ⟨⟨⟨areGraphic_cons.mpr ⟨hdigits.1, by simp [AreGraphic]⟩, by decide⟩, hdigits.2⟩,
            by decide, hexponent⟩
        · simp only [String.toList_append, areGraphic_append]
          exact ⟨by decide, hexponent⟩

theorem areGraphic_render (r : Real) : AreGraphic r.render.toList := by
  cases r with
  | finite negative value =>
      have htext : AreGraphic (if (value.shortest).1 = 0 then "0.0"
          else Decimal.layout (value.shortest).1 (value.shortest).2).toList := by
        split
        · decide
        · exact areGraphic_layout _ _
      show AreGraphic (if negative then "-" ++ _ else _ : String).toList
      split
      · rw [String.toList_append, areGraphic_append]
        exact ⟨by decide, htext⟩
      · exact htext
  | infinity negative => cases negative <;> decide
  | notANumber => decide

/-- **What a value is shown as** holds graphic characters only, unless the value is a text. -/
theorem areGraphic_of_shown? {raw s : String} {m : Meaning} (htext : m ≠ .text)
    (h : Manifest.shown? raw m = some s) : AreGraphic s.toList := by
  cases m with
  | null => cases h
  | flag b =>
      rw [← Option.some.inj h]
      cases b <;> decide
  | integer n =>
      rw [← Option.some.inj h]
      exact areGraphic_toString n
  | wideInteger => cases h
  | real r =>
      rw [← Option.some.inj h]
      exact areGraphic_render r
  | text => exact absurd rfl htext

end SourceEdit.Yaml
