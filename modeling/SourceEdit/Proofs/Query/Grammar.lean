import SourceEdit.Proofs.Outcome
import SourceEdit.Proofs.Query.Selection

/-!
# The grammar of path expressions

Exactly these texts are queries: a slash, steps with a slash after each, a name test with the mark
`:file`, and a row of conditions, such that the steps and the name test make a glob. The conditions
of the query are those of the row, in order. Every other text is refused, whatever the project is.
-/

namespace SourceEdit

open Outcome

namespace Query

theorem checkGap_eq_ok_iff {gap : List Char} :
    checkGap gap = .ok () ↔ ∀ c ∈ gap, Text.isBlank c = true := by
  rw [← Text.trim_eq_nil_iff, checkGap]
  cases Text.trim gap with
  | nil => simp
  | cons c cs => simp

/-! ## One condition -/

/-- What is read as a condition has brackets, an attribute, an equals sign and a value in quotes,
with blanks in between. -/
theorem condition?_eq_some {cs name value rest : List Char}
    (h : condition? cs = some (name, value, rest)) :
    ∃ b₁ b₂ b₃ b₄ : List Char, cs = '[' :: (b₁ ++ name ++ b₂ ++ '=' :: (b₃ ++ '\'' ::
        (value ++ '\'' :: (b₄ ++ ']' :: rest)))) ∧
      (∀ c ∈ b₁, Text.isBlank c = true) ∧ (∀ c ∈ b₂, Text.isBlank c = true) ∧
      (∀ c ∈ b₃, Text.isBlank c = true) ∧ (∀ c ∈ b₄, Text.isBlank c = true) ∧ '\'' ∉ value := by
  unfold condition? at h
  split at h
  case h_2 => cases h
  next cs =>
  dsimp only at h
  split at h
  case isTrue => cases h
  split at h
  case h_2 => cases h
  next cs₁ heq₁ =>
  split at h
  case h_2 => cases h
  next cs₂ heq₂ =>
  split at h
  case h_2 => cases h
  next quote cs₃ heq₃ =>
  split at h
  case h_2 => cases h
  next cs₄ heq₄ =>
  obtain ⟨rfl, rfl, rfl⟩ := by simpa only [Option.some.injEq, Prod.mk.injEq] using h
  -- each stretch is what was taken, and the next character the one that was seen
  have hquote : quote = '\'' := by simpa using Text.head_of_dropWhile heq₃
  obtain ⟨hsplit₀, hblank₀⟩ := Text.stretch_eq Text.isBlank cs
  obtain ⟨hsplit₁, -⟩ := Text.stretch_eq (fun c => 'a' ≤ c && c ≤ 'z') (cs.dropWhile Text.isBlank)
  obtain ⟨hsplit₂, hblank₂⟩ := Text.stretch_eq Text.isBlank
    ((cs.dropWhile Text.isBlank).dropWhile fun c => 'a' ≤ c && c ≤ 'z')
  obtain ⟨hsplit₃, hblank₃⟩ := Text.stretch_eq Text.isBlank cs₁
  obtain ⟨hsplit₄, hvalue⟩ := Text.stretch_eq (· != '\'') cs₂
  obtain ⟨hsplit₅, hblank₅⟩ := Text.stretch_eq Text.isBlank cs₃
  refine ⟨_, _, _, _, ?_, hblank₀, hblank₂, hblank₃, hblank₅, ?_⟩
  · rw [heq₁] at hsplit₂
    rw [heq₂] at hsplit₃
    rw [heq₃, hquote] at hsplit₄
    rw [heq₄] at hsplit₅
    rw [← hsplit₅, ← hsplit₄, ← hsplit₃, List.append_assoc, List.append_assoc, ← hsplit₂,
      ← hsplit₁, ← hsplit₀]
  · intro hmem
    exact absurd (hvalue _ hmem) (by decide)

theorem conditionOf_eq_ok {name value : String} {c : Condition}
    (h : conditionOf name value = .ok c) :
    name = c.attributeName ∧ value = c.value := by
  unfold conditionOf at h
  split at h
  · obtain rfl := Except.ok.inj h
    exact ⟨rfl, rfl⟩
  · obtain rfl := Except.ok.inj h
    exact ⟨rfl, rfl⟩
  · obtain rfl := Except.ok.inj h
    exact ⟨rfl, rfl⟩
  · cases h

/-! ## A row of conditions -/

/-- What is read as conditions is a row of them, with blanks in front. Every character that starts
no condition joins the gap, and a gap has to be blank, so that nothing else stands anywhere. -/
theorem conditionsFrom_eq_ok {gap cs : List Char} {fuel : Nat} {conditions : List Condition}
    (hfuel : cs.length ≤ fuel) (h : conditionsFrom gap fuel cs = .ok conditions) :
    (∀ c ∈ gap, Text.isBlank c = true) ∧ ∃ blanks ws, cs = blanks ++ WrittenCondition.row ws ∧
      (∀ c ∈ blanks, Text.isBlank c = true) ∧ (∀ w ∈ ws, w.WellFormed) ∧
      conditions = ws.map (·.condition) := by
  induction fuel generalizing gap cs conditions with
  -- the fuel bounds the text, whose first character is skipped or starts a condition
  | zero =>
      obtain rfl := List.eq_nil_of_length_eq_zero (Nat.le_zero.mp hfuel)
      rw [conditionsFrom] at h
      obtain ⟨_, hgap, hpure⟩ := bind_eq_ok_iff.mp h
      refine ⟨fun c hc => checkGap_eq_ok_iff.mp hgap c (List.mem_reverse.mpr hc),
        [], [], rfl, by simp, by simp, pure_eq_ok_iff.mp hpure⟩
  | succ fuel ih =>
      cases cs with
      | nil =>
          rw [conditionsFrom] at h
          obtain ⟨_, hgap, hpure⟩ := bind_eq_ok_iff.mp h
          exact ⟨fun c hc => checkGap_eq_ok_iff.mp hgap c (List.mem_reverse.mpr hc),
            [], [], rfl, by simp, by simp, pure_eq_ok_iff.mp hpure⟩
      | cons c cs =>
          rw [conditionsFrom] at h
          split at h
          · obtain ⟨hgap, blanks, ws, rfl, hblanks, hws, hsame⟩ :=
              ih (Nat.le_of_succ_le_succ hfuel) h
            rw [List.forall_mem_cons] at hgap
            refine ⟨hgap.2, c :: blanks, ws, rfl, ?_, hws, hsame⟩
            rw [List.forall_mem_cons]
            exact ⟨hgap.1, hblanks⟩
          · next name value rest hread =>
            obtain ⟨_, hgap, h⟩ := bind_eq_ok_iff.mp h
            obtain ⟨first, hfirst, h⟩ := bind_eq_ok_iff.mp h
            obtain ⟨others, hothers, hpure⟩ := bind_eq_ok_iff.mp h
            obtain rfl := pure_eq_ok_iff.mp hpure
            obtain ⟨b₁, b₂, b₃, b₄, htext, hb₁, hb₂, hb₃, hb₄, hvalue⟩ := condition?_eq_some hread
            have hlength : rest.length ≤ fuel := by
              have hlong := congrArg List.length htext
              simp only [List.length_cons, List.length_append] at hlong hfuel
              omega
            obtain ⟨-, blanks, ws, hrest, hblanks, hws, rfl⟩ := ih hlength hothers
            obtain ⟨hname, hval⟩ := conditionOf_eq_ok hfirst
            have hname' : first.attributeName.toList = name := by
              rw [← hname, String.toList_ofList]
            have hval' : first.value.toList = value := by
              rw [← hval, String.toList_ofList]
            refine ⟨fun c hc => checkGap_eq_ok_iff.mp hgap c (List.mem_reverse.mpr hc), [],
              ⟨first, b₁, b₂, b₃, b₄, blanks⟩ :: ws, ?_, by simp, ?_, rfl⟩
            · rw [htext, hrest]
              simp [WrittenCondition.row, WrittenCondition.text, hname', hval']
            · rw [List.forall_mem_cons]
              exact ⟨⟨hb₁, hb₂, hb₃, hb₄, hblanks, hval'.symm ▸ hvalue⟩, hws⟩

/-- **Conditions** are read from exactly the rows of them, if the text is empty or starts with a
bracket. -/
theorem readConditions_eq_ok_iff {cs : List Char} (hstart : ∀ c, cs.head? = some c → c = '[')
    {conditions : List Condition} : readConditions cs = .ok conditions ↔
      ∃ ws, cs = WrittenCondition.row ws ∧ (∀ w ∈ ws, w.WellFormed) ∧
        conditions = ws.map (·.condition) := by
  constructor
  · intro h
    obtain ⟨-, blanks, ws, hcs, hblanks, hws, hsame⟩ := conditionsFrom_eq_ok (Nat.le_refl _) h
    cases blanks with
    | nil => exact ⟨ws, hcs, hws, hsame⟩
    | cons b blanks =>
        -- a blank is no bracket
        have hb : b = '[' := hstart b (by rw [hcs]; rfl)
        have hblank := hblanks b (List.mem_cons_self ..)
        rw [hb] at hblank
        exact absurd hblank (by decide)
  · rintro ⟨ws, rfl, hws, rfl⟩
    exact WrittenCondition.readConditions_row hws

/-! ## Steps and name test -/

/-- The path part is read from exactly the joins of steps and a marked name test. -/
theorem pathParts_eq_ok_iff {cs : List Char} (hcs : '[' ∉ cs) {steps : List (List Char)}
    {nameTest : List Char} : pathParts cs = .ok (steps, nameTest) ↔
      cs = Text.join '/' (steps ++ [nameTest ++ fileMark]) ∧ (∀ s ∈ steps, IsBarePart s) ∧
        IsBarePart nameTest := by
  constructor
  · intro h
    -- the last field is the name test with its mark, the fields before it are the steps
    obtain ⟨dirs, last, hfields⟩ : ∃ dirs last, Text.fields '/' cs = dirs ++ [last] := by
      rcases List.eq_nil_or_concat (Text.fields '/' cs) with hnil | ⟨dirs, last, hfields⟩
      · exact absurd hnil (Text.fields_ne_nil _ _)
      · exact ⟨dirs, last, by rw [hfields, List.concat_eq_append]⟩
    have hjoin : cs = Text.join '/' (dirs ++ [last]) := by rw [← hfields, Text.join_fields]
    have hslash : ∀ f ∈ dirs ++ [last], '/' ∉ f := fun f hf =>
      Text.not_mem_of_mem_fields (hfields ▸ hf)
    have hbracket : ∀ f ∈ dirs ++ [last], '[' ∉ f := fun f hf hmem =>
      hcs (hjoin ▸ Text.mem_join_of_mem hf hmem)
    simp only [pathParts, hfields, List.getLastD_concat, List.dropLast_concat] at h
    split at h
    · cases h
    next hmark =>
    split at h
    · cases h
    next htest =>
    split at h
    · cases h
    next hempty =>
    obtain ⟨rfl, rfl⟩ := Prod.mk.inj (Except.ok.inj h)
    rw [Bool.not_eq_true', Bool.not_eq_false, List.isSuffixOf_iff_suffix] at hmark
    obtain ⟨test, rfl⟩ := hmark
    have htake : (test ++ fileMark).take ((test ++ fileMark).length - fileMark.length) = test := by
      simp
    rw [htake] at htest ⊢
    refine ⟨hjoin, fun s hs => ⟨fun hnil => hempty ?_, hslash s ?_, hbracket s ?_⟩, ?_, ?_, ?_⟩
    · exact List.any_eq_true.mpr ⟨s, hs, by rw [hnil]; rfl⟩
    · exact List.mem_append_left _ hs
    · exact List.mem_append_left _ hs
    · exact fun hnil => htest (by rw [hnil]; rfl)
    · exact fun hmem => hslash (test ++ fileMark) (by simp) (List.mem_append_left _ hmem)
    · exact fun hmem => hbracket (test ++ fileMark) (by simp) (List.mem_append_left _ hmem)
  · rintro ⟨rfl, hsteps, hname⟩
    exact pathParts_join hsteps hname

/-! ## Whole expressions -/

structure WrittenQuery where
  steps : List (List Char)
  nameTest : List Char
  conditions : List WrittenCondition

namespace WrittenQuery

def text (w : WrittenQuery) : List Char := expressionText w.steps w.nameTest w.conditions

structure WellFormed (w : WrittenQuery) : Prop where
  steps : ∀ s ∈ w.steps, IsBarePart s
  nameTest : IsBarePart w.nameTest
  conditions : ∀ c ∈ w.conditions, c.WellFormed

/-- The glob of the steps and the name test can be read. -/
def HasScope (w : WrittenQuery) : Prop :=
  ∃ scope, Glob.ofString true false (scopeText w.steps w.nameTest) = .ok scope

/-- Neither the steps nor the name test hold a brace or a backslash. -/
def Unbraced (w : WrittenQuery) : Prop :=
  ∀ part ∈ w.steps ++ [w.nameTest], '\x7b' ∉ part ∧ '\x7d' ∉ part ∧ '\\' ∉ part

end WrittenQuery

/-- **Reading** succeeds on exactly the written queries whose glob can be read. -/
theorem read_eq_ok_iff {e : String} {q : Query} : read e = .ok q ↔
    ∃ w : WrittenQuery, w.WellFormed ∧ Text.trim e.toList = w.text ∧
      Glob.ofString true false (scopeText w.steps w.nameTest) = .ok q.scope ∧
      q.conditions = w.conditions.map (·.condition) := by
  constructor
  · intro h
    unfold read at h
    split at h
    case h_2 => cases h
    next body htrim =>
    -- the path part ends where the first bracket stands
    have hpath : '[' ∉ body.takeWhile (· != '[') := fun hmem =>
      absurd (List.mem_takeWhile_imp hmem) (by decide)
    have hstart : ∀ c, (body.dropWhile (· != '[')).head? = some c → c = '[' := by
      intro c hc
      obtain ⟨rest, hrest⟩ := List.head?_eq_some_iff.mp hc
      simpa using Text.head_of_dropWhile hrest
    obtain ⟨⟨steps, nameTest⟩, hparts, h⟩ := bind_eq_ok_iff.mp h
    obtain ⟨hjoin, hsteps, hname⟩ := (pathParts_eq_ok_iff hpath).mp hparts
    dsimp only at h
    split at h
    · cases h
    next scope hscope =>
    obtain ⟨conditions, hconditions, hpure⟩ := bind_eq_ok_iff.mp h
    obtain rfl := pure_eq_ok_iff.mp hpure
    obtain ⟨ws, hrow, hws, hsame⟩ := (readConditions_eq_ok_iff hstart).mp hconditions
    refine ⟨⟨steps, nameTest, ws⟩, ⟨hsteps, hname, hws⟩, ?_, hscope, hsame⟩
    rw [htrim, WrittenQuery.text, expressionText, ← hjoin, ← hrow,
      List.takeWhile_append_dropWhile]
  · rintro ⟨w, hw, htrim, hscope, hconditions⟩
    rw [read_of_trim hw.steps hw.nameTest hw.conditions htrim hscope, ← hconditions]

theorem WrittenQuery.WellFormed.hasScope {w : WrittenQuery} (hw : w.WellFormed)
    (hplain : w.Unbraced) : w.HasScope := by
  have hstep : ∀ part ∈ w.steps ++ [w.nameTest], IsBarePart part → Glob.IsStep part := by
    intro part hpart hbare
    obtain ⟨hopen, hclose, hslash⟩ := hplain part hpart
    refine ⟨hbare.nonempty, fun c hc => ⟨?_, ?_, ?_, ?_, ?_⟩⟩
    · exact fun heq => hbare.noSlash (heq ▸ hc)
    · exact fun heq => hbare.noBracket (heq ▸ hc)
    · exact fun heq => hopen (heq ▸ hc)
    · exact fun heq => hclose (heq ▸ hc)
    · exact fun heq => hslash (heq ▸ hc)
  refine ⟨_, ofString_scopeText (fun s hs => ?_) ?_⟩
  · exact hstep s (List.mem_append_left _ hs) (hw.steps s hs)
  · exact hstep w.nameTest (by simp) hw.nameTest

/-- **Queries are exactly the grammar.** On every project an expression is evaluated if and only if,
trimmed, it is a written query whose glob can be read, which any is that has neither braces nor
backslashes in its path part. The query has the conditions that are written, in order. Every other
expression is refused, and the refusal carries it as it came. -/
theorem evaluate_accepts_exactly_grammar (p : Project) (e : String) :
    ((∃ found, QueryEngine.pathExpressions.evaluate p e = .ok found) ↔
        ∃ w : WrittenQuery, w.WellFormed ∧ Text.trim e.toList = w.text ∧ w.HasScope) ∧
      (∀ w : WrittenQuery, w.WellFormed → Text.trim e.toList = w.text → w.HasScope →
        ∃ q, Query.ofString e = .ok q ∧ q.conditions = w.conditions.map (·.condition) ∧
          QueryEngine.pathExpressions.evaluate p e = .ok (q.evaluate p)) ∧
      ((¬ ∃ w : WrittenQuery, w.WellFormed ∧ Text.trim e.toList = w.text ∧ w.HasScope) →
        ∃ fault, QueryEngine.pathExpressions.evaluate p e =
          .error (.invalidExpression e fault)) ∧
      ∀ w : WrittenQuery, w.WellFormed → w.Unbraced → w.HasScope := by
  have heval : QueryEngine.pathExpressions.evaluate p e =
      (Query.ofString e >>= fun q => pure (q.evaluate p)) := rfl
  have hwritten : ∀ w : WrittenQuery, w.WellFormed → Text.trim e.toList = w.text → w.HasScope →
      ∃ q, Query.ofString e = .ok q ∧ q.conditions = w.conditions.map (·.condition) ∧
        QueryEngine.pathExpressions.evaluate p e = .ok (q.evaluate p) := by
    rintro w hw htrim ⟨scope, hscope⟩
    have hread := read_of_trim hw.steps hw.nameTest hw.conditions htrim hscope
    have hquery : Query.ofString e = .ok ⟨scope, w.conditions.map (·.condition)⟩ := by
      rw [Query.ofString, hread]
      rfl
    exact ⟨_, hquery, rfl, by rw [heval, hquery]; rfl⟩
  have hiff : (∃ found, QueryEngine.pathExpressions.evaluate p e = .ok found) ↔
      ∃ w : WrittenQuery, w.WellFormed ∧ Text.trim e.toList = w.text ∧ w.HasScope := by
    constructor
    · rintro ⟨found, hfound⟩
      cases hread : read e with
      | error fault =>
          rw [heval, Query.ofString, hread] at hfound
          cases hfound
      | ok q =>
          obtain ⟨w, hw, htrim, hscope, -⟩ := read_eq_ok_iff.mp hread
          exact ⟨w, hw, htrim, q.scope, hscope⟩
    · rintro ⟨w, hw, htrim, hscope⟩
      obtain ⟨q, -, -, hq⟩ := hwritten w hw htrim hscope
      exact ⟨_, hq⟩
  refine ⟨hiff, hwritten, fun hnone => ?_, fun w hw hplain => hw.hasScope hplain⟩
  cases hread : read e with
  | error fault => exact ⟨fault, by rw [heval, Query.ofString, hread]; rfl⟩
  | ok q =>
      obtain ⟨w, hw, htrim, hscope, -⟩ := read_eq_ok_iff.mp hread
      exact absurd ⟨w, hw, htrim, q.scope, hscope⟩ hnone

end Query

end SourceEdit
