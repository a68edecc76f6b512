import SourceEdit.Proofs.Glob.Scope
import SourceEdit.Proofs.Query.Condition

/-!
# Selection

What a query selects, told by the parts of a path: the steps of the query match the first
directories of the path, the name test matches its last part, and the conditions hold.
-/

namespace SourceEdit

namespace Query

open Glob

def expressionText (steps : List (List Char)) (nameTest : List Char)
    (ws : List WrittenCondition) : List Char :=
  '/' :: (Text.join '/' (steps ++ [nameTest ++ fileMark]) ++ WrittenCondition.row ws)

/-- Whether the parts of a path are matched: some of its directories, from the first on, by the
steps, and its last part by the name test. -/
def PathMatches (steps : List (List Char)) (nameTest : List Char) (path : String) : Prop :=
  ∃ a b name, Text.fields '/' path.toList = a ++ b ++ [name] ∧
    StepsMatch steps (a.map utf8) ∧ PartMatches nameTest (utf8 name)

/-! ## Reading the path part -/

/-- A stretch between slashes, in front of all brackets. -/
structure IsBarePart (part : List Char) : Prop where
  nonempty : part ≠ []
  noSlash : '/' ∉ part
  noBracket : '[' ∉ part

theorem isBarePart_of_isStep {s : List Char} (hs : IsStep s) : IsBarePart s where
  nonempty := hs.1
  noSlash := fun hm => (hs.2 '/' hm).1 rfl
  noBracket := fun hm => (hs.2 '[' hm).2.1 rfl

theorem fileMark_eq : fileMark = [':', 'f', 'i', 'l'] ++ ['e'] := rfl

theorem pathParts_join {steps : List (List Char)} (hsteps : ∀ s ∈ steps, IsBarePart s)
    {nameTest : List Char} (hname : IsBarePart nameTest) :
    pathParts (Text.join '/' (steps ++ [nameTest ++ fileMark])) = .ok (steps, nameTest) := by
  have hfields : Text.fields '/' (Text.join '/' (steps ++ [nameTest ++ fileMark])) =
      steps ++ [nameTest ++ fileMark] := by
    refine Text.fields_join (by simp) fun f hf => ?_
    rcases List.mem_append.mp hf with hf | hf
    · exact (hsteps f hf).noSlash
    · rw [List.mem_singleton.mp hf, List.mem_append, not_or]
      exact ⟨hname.noSlash, by decide⟩
  have hsome : steps.any List.isEmpty = false := by
    rw [List.any_eq_false]
    intro s hs
    simpa using (hsteps s hs).nonempty
  have htest : nameTest.isEmpty = false := by simpa using hname.nonempty
  have htake : (nameTest ++ fileMark).take ((nameTest ++ fileMark).length - fileMark.length) =
      nameTest := by simp
  simp only [pathParts, hfields, List.getLastD_concat, List.dropLast_concat, htake, htest, hsome,
    show fileMark.isSuffixOf (nameTest ++ fileMark) = true by simp, Bool.not_true,
    Bool.false_eq_true, if_false]

theorem ofString_scopeText {steps : List (List Char)} (hsteps : ∀ s ∈ steps, IsStep s)
    {nameTest : List Char} (hname : IsStep nameTest) :
    Glob.ofString true false (scopeText steps nameTest) = .ok ⟨scopeText steps nameTest, true,
      (afterLast ((steps ++ [anyParts]).foldl afterStep []) nameTest).reverse⟩ := by
  have hsplit : steps ++ [['*', '*'], nameTest] = (steps ++ [anyParts]) ++ [nameTest] := by
    simp [anyParts]
  have htext : (scopeText steps nameTest).toList = stepsText (steps ++ [anyParts]) ++ nameTest := by
    rw [scopeText, String.toList_ofList, hsplit, Text.join_concat]
    rfl
  rw [Glob.ofString, htext, readTokens_steps (isStep_concat_anyParts hsteps) hname]

/-! ## Reading the whole expression -/

theorem row_eq_nil_or_cons (ws : List WrittenCondition) :
    WrittenCondition.row ws = [] ∨ ∃ rest, WrittenCondition.row ws = '[' :: rest := by
  cases ws with
  | nil => exact Or.inl rfl
  | cons w ws => exact Or.inr ⟨_, rfl⟩

/-- A path part without brackets is cut from the conditions behind it. -/
theorem cut_row {path : List Char} (hpath : '[' ∉ path) (ws : List WrittenCondition) :
    (path ++ WrittenCondition.row ws).takeWhile (· != '[') = path ∧
      (path ++ WrittenCondition.row ws).dropWhile (· != '[') = WrittenCondition.row ws := by
  have hall : ∀ c ∈ path, (c != '[') = true := by
    intro c hc
    simpa using fun e : c = '[' => hpath (e ▸ hc)
  rcases row_eq_nil_or_cons ws with hrow | ⟨rest, hrow⟩
  · rw [hrow, List.append_nil]
    exact ⟨List.takeWhile_eq_self_iff.mpr hall, List.dropWhile_eq_nil_iff.mpr hall⟩
  · rw [hrow]
    exact ⟨Text.takeWhile_append_cons hall (by decide), Text.dropWhile_append_cons hall (by decide)⟩

theorem bracket_notMem_join {steps : List (List Char)} (hsteps : ∀ s ∈ steps, IsBarePart s)
    {nameTest : List Char} (hname : IsBarePart nameTest) :
    '[' ∉ Text.join '/' (steps ++ [nameTest ++ fileMark]) := by
  rw [Text.join_concat, List.mem_append, List.mem_append, List.mem_flatMap]
  rintro (⟨s, hs, hm⟩ | hm | hm)
  · rcases List.mem_append.mp hm with hm | hm
    · exact (hsteps s hs).noBracket hm
    · exact absurd hm (by decide)
  · exact hname.noBracket hm
  · exact absurd hm (by decide)

/-- Trimming an expression takes away blanks behind its last condition only. -/
theorem trim_expressionText (steps : List (List Char)) (nameTest : List Char)
    {ws : List WrittenCondition} (hws : ∀ w ∈ ws, w.WellFormed) :
    ∃ vs : List WrittenCondition, (∀ v ∈ vs, v.WellFormed) ∧
      vs.map (·.condition) = ws.map (·.condition) ∧
      Text.trim (expressionText steps nameTest ws) = expressionText steps nameTest vs := by
  obtain ⟨vs, blanks, hrow, hvs, hsame, hblanks, hend⟩ :=
    WrittenCondition.exists_row_without_end hws
  have hlast : ∃ z, (expressionText steps nameTest vs).getLast? = some z ∧
      Text.isBlank z = false := by
    rcases hend with hend | hend
    · refine ⟨'e', ?_, by decide⟩
      have hshape : expressionText steps nameTest vs =
          ('/' :: (steps.flatMap (fun g => g ++ ['/']) ++ nameTest ++ [':', 'f', 'i', 'l'])) ++
            ['e'] := by
        rw [expressionText, hend, Text.join_concat, fileMark_eq]
        simp
      rw [hshape, List.getLast?_concat]
    · refine ⟨']', ?_, by decide⟩
      obtain ⟨init, hinit⟩ := List.getLast?_eq_some_iff.mp hend
      rw [expressionText, hinit, ← List.append_assoc, ← List.cons_append, List.getLast?_concat]
  obtain ⟨z, hz, hz'⟩ := hlast
  refine ⟨vs, hvs, hsame, ?_⟩
  have hwhole : expressionText steps nameTest ws = expressionText steps nameTest vs ++ blanks := by
    rw [expressionText, hrow, expressionText]
    simp
  rw [hwhole]
  exact Text.trim_append_blanks (by decide) hz hz' hblanks

theorem read_of_trim {e : String} {steps : List (List Char)} (hsteps : ∀ s ∈ steps, IsBarePart s)
    {nameTest : List Char} (hname : IsBarePart nameTest) {ws : List WrittenCondition}
    (hws : ∀ w ∈ ws, w.WellFormed) (htrim : Text.trim e.toList = expressionText steps nameTest ws)
    {scope : Glob} (hscope : Glob.ofString true false (scopeText steps nameTest) = .ok scope) :
    read e = .ok ⟨scope, ws.map (·.condition)⟩ := by
  obtain ⟨htake, hdrop⟩ := cut_row (bracket_notMem_join hsteps hname) ws
  rw [read, htrim, expressionText]
  simp only [htake, hdrop, pathParts_join hsteps hname, bind, Except.bind, hscope,
    WrittenCondition.readConditions_row hws]
  rfl

/-- **Reading succeeds** on every expression of steps, a name test and conditions. -/
theorem read_expressionText {steps : List (List Char)} (hsteps : ∀ s ∈ steps, IsStep s)
    {nameTest : List Char} (hname : IsStep nameTest) {ws : List WrittenCondition}
    (hws : ∀ w ∈ ws, w.WellFormed) :
    ∃ text, read (String.ofList (expressionText steps nameTest ws)) =
      .ok ⟨⟨text, true, (afterLast ((steps ++ [anyParts]).foldl afterStep []) nameTest).reverse⟩,
        ws.map (·.condition)⟩ := by
  obtain ⟨vs, hvs, hsame, htrim⟩ := trim_expressionText steps nameTest hws
  refine ⟨scopeText steps nameTest, ?_⟩
  rw [← hsame]
  refine read_of_trim (fun s hs => isBarePart_of_isStep (hsteps s hs)) (isBarePart_of_isStep hname)
    hvs ?_ (ofString_scopeText hsteps hname)
  rw [String.toList_ofList, htrim]

/-! ## What is selected -/

/-- **The scope of a query** holds exactly the paths whose parts are matched. -/
theorem isMatch_iff_pathMatches {steps : List (List Char)} (hsteps : ∀ s ∈ steps, IsStep s)
    {nameTest : List Char} (hname : IsStep nameTest) {text path : String} :
    isMatch ⟨text, true, (afterLast ((steps ++ [anyParts]).foldl afterStep []) nameTest).reverse⟩
        path = true ↔ PathMatches steps nameTest path := by
  obtain ⟨dirs, name, hparts⟩ : ∃ dirs name, Text.fields '/' path.toList = dirs ++ [name] := by
    rcases List.eq_nil_or_concat (Text.fields '/' path.toList) with h | ⟨dirs, name, h⟩
    · exact absurd h (Text.fields_ne_nil _ _)
    · exact ⟨dirs, name, by rw [h, List.concat_eq_append]⟩
  have hfree : ∀ f ∈ dirs ++ [name], slashByte ∉ utf8 f := fun f hf =>
    slashByte_notMem_utf8 (Text.not_mem_of_mem_fields (hparts ▸ hf))
  have hdirs : AreParts (dirs.map utf8) := by
    intro p hp
    obtain ⟨d, hd, rfl⟩ := List.mem_map.mp hp
    exact hfree d (List.mem_append_left _ hd)
  have hbytes : bytesOf path = closed (dirs.map utf8) ++ utf8 name := by
    rw [bytesOf_eq_utf8, ← closed_join, ← hparts, Text.join_fields]
  rw [isMatch_steps_iff hsteps hname hdirs (hfree name (by simp)) hbytes]
  constructor
  · rintro ⟨hlast, a, b, hsplit, hmatch⟩
    obtain ⟨x, y, rfl, rfl, rfl⟩ := List.map_eq_append_iff.mp hsplit
    exact ⟨x, y, name, hparts, hmatch, hlast⟩
  · rintro ⟨a, b, name', hsplit, hmatch, hlast⟩
    obtain ⟨rfl, hname'⟩ := List.append_inj' (hparts.symm.trans hsplit) rfl
    obtain rfl := List.singleton_inj.mp hname'
    exact ⟨hlast, a.map utf8, b.map utf8, List.map_append, hmatch⟩

/-- **Evaluation selects by parts.** Every expression of steps, a name test and conditions
evaluates, to the files with a matched path of which all conditions hold, in the order of the
project and each once. -/
theorem evaluate_selects_matching_files (p : Project) {steps : List (List Char)}
    (hsteps : ∀ s ∈ steps, IsStep s) {nameTest : List Char} (hname : IsStep nameTest)
    {ws : List WrittenCondition} (hws : ∀ w ∈ ws, w.WellFormed) :
    ∃ found, QueryEngine.pathExpressions.evaluate p
        (String.ofList (expressionText steps nameTest ws)) = .ok found ∧
      found.Sublist p.files ∧ found.Nodup ∧
      ∀ f, f ∈ found ↔ f ∈ p.files ∧ PathMatches steps nameTest f.path ∧
        ∀ w ∈ ws, w.condition.holds f = true := by
  obtain ⟨text, hread⟩ := read_expressionText hsteps hname hws
  refine ⟨_, by rw [QueryEngine.evaluate, Query.ofString, hread]; rfl, ?_, ?_, ?_⟩
  · exact List.filter_sublist
  · exact (List.Nodup.of_map _ p.nodup).filter _
  · intro f
    rw [evaluate, List.mem_filter, selects, Bool.and_eq_true,
      isMatch_iff_pathMatches hsteps hname, List.all_map, List.all_eq_true]
    rfl

def twoNotes : Project where
  files := [⟨"src/notes/a.md", "first"⟩, ⟨"doc/a.md", "second"⟩]
  nodup := by decide
  valid := by decide

theorem evaluate_selects_notes_below_src :
    ∃ found, QueryEngine.pathExpressions.evaluate twoNotes
        (String.ofList (expressionText ["src".toList] "*.md".toList
          [{ condition := .name "a.md", behind := [' '] }])) = .ok found ∧
      found.Sublist twoNotes.files ∧ found.Nodup ∧
      ∀ f, f ∈ found ↔ f ∈ twoNotes.files ∧ PathMatches ["src".toList] "*.md".toList f.path ∧
        ∀ w ∈ [({ condition := .name "a.md", behind := [' '] } : WrittenCondition)],
          w.condition.holds f = true := by
  refine evaluate_selects_matching_files twoNotes (by decide) (by decide) fun w hw => ?_
  rw [List.mem_singleton.mp hw]
  exact ⟨by simp, by simp, by simp, by simp, List.all_eq_true.mp (by decide), by decide⟩

end Query

end SourceEdit
