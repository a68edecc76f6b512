import SourceEdit.Proofs.Text.Fields
import SourceEdit.Query

/-!
# Written conditions

A condition as it can be written: brackets around an attribute, an equals sign and a value in
quotes, with blanks at five places. Reading gives back the conditions of any row of them.
-/

namespace SourceEdit

def Condition.attributeName : Condition → String
  | .name _ => "name"
  | .path _ => "path"
  | .extension _ => "extension"

def Condition.value : Condition → String
  | .name v => v
  | .path v => v
  | .extension v => v

/-- A condition with the blanks that stand in it and behind it. -/
structure WrittenCondition where
  condition : Condition
  beforeAttribute : List Char := []
  afterAttribute : List Char := []
  beforeValue : List Char := []
  afterValue : List Char := []
  behind : List Char := []

namespace WrittenCondition

/-- The text from the opening bracket on, before any blanks behind the closing one. -/
def text (w : WrittenCondition) : List Char :=
  '[' :: (w.beforeAttribute ++ w.condition.attributeName.toList ++ w.afterAttribute ++
    '=' :: (w.beforeValue ++ '\'' :: (w.condition.value.toList ++ '\'' :: (w.afterValue ++ [']']))))

structure WellFormed (w : WrittenCondition) : Prop where
  beforeAttribute : ∀ c ∈ w.beforeAttribute, Text.isBlank c = true
  afterAttribute : ∀ c ∈ w.afterAttribute, Text.isBlank c = true
  beforeValue : ∀ c ∈ w.beforeValue, Text.isBlank c = true
  afterValue : ∀ c ∈ w.afterValue, Text.isBlank c = true
  behind : ∀ c ∈ w.behind, Text.isBlank c = true
  value : '\'' ∉ w.condition.value.toList

def row (ws : List WrittenCondition) : List Char :=
  ws.flatMap fun w => w.text ++ w.behind

/-! ## One condition -/

theorem attributeName_eq_cons (c : Condition) :
    ∃ a as, c.attributeName.toList = a :: as ∧ Text.isBlank a = false ∧
      ∀ x ∈ a :: as, ('a' ≤ x && x ≤ 'z') = true := by
  cases c with
  | name _ =>
      exact ⟨'n', ['a', 'm', 'e'], by simp [Condition.attributeName], by decide,
        List.all_eq_true.mp (by decide)⟩
  | path _ =>
      exact ⟨'p', ['a', 't', 'h'], by simp [Condition.attributeName], by decide,
        List.all_eq_true.mp (by decide)⟩
  | extension _ =>
      exact ⟨'e', ['x', 't', 'e', 'n', 's', 'i', 'o', 'n'], by simp [Condition.attributeName],
        by decide, List.all_eq_true.mp (by decide)⟩

theorem isBlank_not_letter {c : Char} (h : Text.isBlank c = true) :
    ('a' ≤ c && c ≤ 'z') = false := by
  refine Bool.eq_false_iff.mpr fun hne => ?_
  have hletter : 'a' ≤ c ∧ c ≤ 'z' := by simpa using hne
  have hlo : 97 ≤ c.toNat := hletter.1
  have hhi : c.toNat ≤ 122 := hletter.2
  simp only [Text.isBlank, Bool.or_eq_true, Bool.and_eq_true, decide_eq_true_eq, beq_iff_eq] at h
  omega

/-- Blanks, if any, and the character after them do not continue an attribute. -/
theorem takeWhile_letters {letters blanks : List Char} {x : Char} (rest : List Char)
    (hl : ∀ c ∈ letters, ('a' ≤ c && c ≤ 'z') = true) (hb : ∀ c ∈ blanks, Text.isBlank c = true)
    (hx : ('a' ≤ x && x ≤ 'z') = false) :
    (letters ++ blanks ++ x :: rest).takeWhile (fun c => 'a' ≤ c && c ≤ 'z') = letters ∧
      (letters ++ blanks ++ x :: rest).dropWhile (fun c => 'a' ≤ c && c ≤ 'z') =
        blanks ++ x :: rest := by
  rw [List.append_assoc]
  cases blanks with
  | nil =>
      exact ⟨Text.takeWhile_append_cons hl hx, Text.dropWhile_append_cons hl hx⟩
  | cons b blanks =>
      have hb' := isBlank_not_letter (hb b (by simp))
      exact ⟨Text.takeWhile_append_cons hl hb', Text.dropWhile_append_cons hl hb'⟩

theorem condition?_text {w : WrittenCondition} (hw : w.WellFormed) (rest : List Char) :
    Query.condition? (w.text ++ rest) =
      some (w.condition.attributeName.toList, w.condition.value.toList, rest) := by
  obtain ⟨a, as, hattr, ha, hletters⟩ := attributeName_eq_cons w.condition
  obtain ⟨htake, hdrop⟩ := takeWhile_letters (x := '=') (w.beforeValue ++ '\'' ::
    (w.condition.value.toList ++ '\'' :: (w.afterValue ++ ']' :: rest))) hletters
    hw.afterAttribute (by decide)
  have hquote : ∀ y ∈ w.condition.value.toList, (y != '\'') = true := by
    intro y hy
    simpa using fun e : y = '\'' => hw.value (e ▸ hy)
  have htext : w.text ++ rest = '[' :: (w.beforeAttribute ++ a :: (as ++ w.afterAttribute ++
      '=' :: (w.beforeValue ++ '\'' ::
        (w.condition.value.toList ++ '\'' :: (w.afterValue ++ ']' :: rest))))) := by
    simp [text, hattr]
  rw [htext, hattr]
  unfold Query.condition?
  simp only [Text.dropWhile_append_cons hw.beforeAttribute ha]
  rw [← List.cons_append, ← List.cons_append, htake, hdrop]
  simp only [List.isEmpty_cons, Bool.false_eq_true, if_false,
    Text.dropWhile_append_cons hw.afterAttribute (by decide : Text.isBlank '=' = false),
    Text.dropWhile_append_cons hw.beforeValue (by decide : Text.isBlank '\'' = false),
    Text.takeWhile_append_cons hquote (by decide : ('\'' != '\'') = false),
    Text.dropWhile_append_cons hquote (by decide : ('\'' != '\'') = false),
    Text.dropWhile_append_cons hw.afterValue (by decide : Text.isBlank ']' = false)]

theorem conditionOf_attributeName (c : Condition) :
    Query.conditionOf c.attributeName c.value = .ok c := by
  cases c <;> rfl

/-! ## A row of conditions -/

theorem checkGap_of_blank {gap : List Char} (h : ∀ c ∈ gap, Text.isBlank c = true) :
    Query.checkGap gap = .ok () := by
  have htrim : Text.trim gap = [] := by
    have hdrop : gap.dropWhile Text.isBlank = [] := List.dropWhile_eq_nil_iff.mpr h
    simp [Text.trim, Text.trimWhile, Text.dropEndWhile, hdrop]
  rw [Query.checkGap, htrim]
  rfl

theorem conditionsFrom_blanks {blanks : List Char} (hb : ∀ c ∈ blanks, Text.isBlank c = true)
    (gap : List Char) (fuel : Nat) (cs : List Char) :
    Query.conditionsFrom gap (blanks.length + fuel) (blanks ++ cs) =
      Query.conditionsFrom (blanks.reverse ++ gap) fuel cs := by
  induction blanks generalizing gap with
  | nil => simp
  | cons b blanks ih =>
      have hb' : Text.isBlank b = true := hb b (by simp)
      have hnone : ∀ rest, Query.condition? (b :: rest) = none := by
        intro rest
        unfold Query.condition?
        split
        · next heq =>
          obtain ⟨rfl, _⟩ := List.cons.inj heq
          exact absurd hb' (by decide)
        · rfl
      have hlen : (b :: blanks).length + fuel = (blanks.length + fuel) + 1 := by simp; omega
      rw [hlen, List.cons_append, Query.conditionsFrom, hnone]
      simp only
      rw [ih fun c hc => hb c (List.mem_cons_of_mem _ hc)]
      simp

/-- **A row of conditions** is read as the conditions in it, in order. -/
theorem conditionsFrom_row {ws : List WrittenCondition} (hws : ∀ w ∈ ws, w.WellFormed)
    {gap : List Char} (hgap : ∀ c ∈ gap, Text.isBlank c = true) {fuel : Nat}
    (hfuel : (row ws).length ≤ fuel) :
    Query.conditionsFrom gap fuel (row ws) = .ok (ws.map (·.condition)) := by
  induction ws generalizing gap fuel with
  | nil =>
      have hcheck := checkGap_of_blank fun c hc => hgap c (List.mem_reverse.mp hc)
      cases fuel <;> simp [row, Query.conditionsFrom, hcheck]
  | cons w ws ih =>
      have hw := hws w (by simp)
      have hrow : row (w :: ws) = w.text ++ (w.behind ++ row ws) := by simp [row]
      have htext : w.text = '[' :: w.text.tail := rfl
      rw [hrow] at hfuel ⊢
      have hlen : 1 + (w.behind.length + (row ws).length) ≤ fuel := by
        rw [htext] at hfuel
        simp at hfuel
        omega
      obtain ⟨fuel, rfl⟩ := Nat.exists_eq_add_of_le' (by omega : 1 ≤ fuel)
      have hread := condition?_text hw (w.behind ++ row ws)
      have hcheck := checkGap_of_blank fun c hc => hgap c (List.mem_reverse.mp hc)
      have hrest : Query.conditionsFrom [] fuel (w.behind ++ row ws) =
          .ok (ws.map (·.condition)) := by
        obtain ⟨more, rfl⟩ := Nat.exists_eq_add_of_le (by omega : w.behind.length ≤ fuel)
        rw [conditionsFrom_blanks hw.behind, ih (fun v hv => hws v (List.mem_cons_of_mem _ hv))]
        · simpa using hw.behind
        · omega
      rw [htext, List.cons_append] at hread ⊢
      rw [Query.conditionsFrom, hread]
      simp only [hcheck, String.ofList_toList, conditionOf_attributeName, hrest]
      rfl

theorem readConditions_row {ws : List WrittenCondition} (hws : ∀ w ∈ ws, w.WellFormed) :
    Query.readConditions (row ws) = .ok (ws.map (·.condition)) :=
  conditionsFrom_row hws (by simp) (Nat.le_refl _)

/-- Blanks behind the last condition can be left out. -/
theorem exists_row_without_end {ws : List WrittenCondition} (hws : ∀ w ∈ ws, w.WellFormed) :
    ∃ (vs : List WrittenCondition) (blanks : List Char), row ws = row vs ++ blanks ∧
      (∀ v ∈ vs, v.WellFormed) ∧ vs.map (·.condition) = ws.map (·.condition) ∧
      (∀ c ∈ blanks, Text.isBlank c = true) ∧ (row vs = [] ∨ (row vs).getLast? = some ']') := by
  rcases List.eq_nil_or_concat ws with rfl | ⟨init, w, rfl⟩
  · exact ⟨[], [], rfl, hws, rfl, by simp, Or.inl rfl⟩
  · rw [List.concat_eq_append] at hws ⊢
    have hw := hws w (by simp)
    refine ⟨init ++ [{ w with behind := [] }], w.behind, ?_, ?_, ?_, hw.behind, Or.inr ?_⟩
    · simp [row, text]
    · intro v hv
      rcases List.mem_append.mp hv with hv | hv
      · exact hws v (List.mem_append_left _ hv)
      · rw [List.mem_singleton.mp hv]
        exact { hw with behind := by simp }
    · simp
    · have hlast : row (init ++ [{ w with behind := [] }]) =
          (row init ++ '[' :: (w.beforeAttribute ++ w.condition.attributeName.toList ++
            w.afterAttribute ++ '=' :: (w.beforeValue ++ '\'' ::
              (w.condition.value.toList ++ '\'' :: w.afterValue)))) ++ [']'] := by
        simp [row, text]
      rw [hlast, List.getLast?_concat]

end WrittenCondition

end SourceEdit
