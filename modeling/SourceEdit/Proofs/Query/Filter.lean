import SourceEdit.Proofs.Path
import SourceEdit.Proofs.Query.Grammar

/-!
# Conditions filter

A condition that is written behind an expression takes from the files that the expression selects
those that do not meet it. Wherever the path part of the expression ends and whatever its own
conditions hold, the text behind it is read as one condition more (`read_append_row`), so that the
order of conditions makes no difference, nor how often each is written.
-/

namespace SourceEdit

def Condition.text (c : Condition) : String :=
  "[" ++ c.attributeName ++ "='" ++ c.value ++ "']"

namespace WrittenCondition

theorem row_append (ws vs : List WrittenCondition) : row (ws ++ vs) = row ws ++ row vs :=
  List.flatMap_append

def plainly (cs : List Condition) : List WrittenCondition :=
  cs.map fun c => { condition := c }

theorem map_condition_plainly (cs : List Condition) : (plainly cs).map (·.condition) = cs := by
  rw [plainly, List.map_map]
  exact List.map_id cs

theorem row_plainly_singleton (c : Condition) : String.ofList (row (plainly [c])) = c.text := by
  rw [← String.ofList_toList (s := c.text)]
  congr 1
  simp [Condition.text, plainly, row, text]

theorem wellFormed_plainly {cs : List Condition} (h : ∀ c ∈ cs, '\'' ∉ c.value.toList) :
    ∀ w ∈ plainly cs, w.WellFormed := by
  intro w hw
  obtain ⟨c, hc, rfl⟩ := List.mem_map.mp hw
  exact ⟨Text.areBlanks_nil, Text.areBlanks_nil, Text.areBlanks_nil, Text.areBlanks_nil,
    Text.areBlanks_nil, h c hc⟩

end WrittenCondition

namespace Query

open Glob WrittenCondition

variable {p : Project} {e : String} {q : Query} {found : List File} {ws vs : List WrittenCondition}

theorem evaluate_eq_ok_iff : QueryEngine.pathExpressions.evaluate p e = .ok found ↔
    ∃ q, read e = .ok q ∧ found = q.evaluate p := by
  rw [QueryEngine.evaluate, Query.ofString]
  cases read e with
  | error fault => simp [Except.mapError, bind, Except.bind]
  | ok q => simp [Except.mapError, bind, Except.bind, pure, Except.pure, eq_comm]

/-! ## More conditions -/

theorem read_append_row (htrim : Text.trim e.toList = e.toList) (h : read e = .ok q)
    (hws : ∀ w ∈ ws, w.WellFormed) :
    read (e ++ String.ofList (WrittenCondition.row ws)) =
      .ok { q with conditions := q.conditions ++ ws.map (·.condition) } := by
  obtain ⟨w, hw, htext, hscope, hconditions⟩ := read_eq_ok_iff.mp h
  have hwhole : (e ++ String.ofList (WrittenCondition.row ws)).toList =
      expressionText w.steps w.nameTest (w.conditions ++ ws) := by
    rw [String.toList_append, String.toList_ofList, ← htrim, htext, WrittenQuery.text,
      expressionText, expressionText, WrittenCondition.row_append]
    simp
  have hall : ∀ v ∈ w.conditions ++ ws, v.WellFormed := by
    intro v hv
    rcases List.mem_append.mp hv with hv | hv
    · exact hw.conditions v hv
    · exact hws v hv
  -- blanks behind the last condition are trimmed, and the rest is a written query again
  obtain ⟨vs, hvs, hsame, htrimmed⟩ := trim_expressionText w.steps w.nameTest hall
  refine read_eq_ok_iff.mpr
    ⟨⟨w.steps, w.nameTest, vs⟩, ⟨hw.steps, hw.nameTest, hvs⟩, ?_, hscope, ?_⟩
  · rw [hwhole, htrimmed]
    rfl
  · rw [hsame, List.map_append, hconditions]

/-- A query with more conditions selects what it selected before and the conditions let pass. -/
theorem evaluate_append_conditions (q : Query) (p : Project) (cs : List Condition) :
    evaluate { q with conditions := q.conditions ++ cs } p =
      (q.evaluate p).filter fun f => cs.all (·.holds f) := by
  rw [evaluate, evaluate, List.filter_filter]
  apply List.filter_congr
  intro f _
  show (q.scope.isMatch f.path && (q.conditions ++ cs).all (·.holds f)) =
    (cs.all (·.holds f) && (q.scope.isMatch f.path && q.conditions.all (·.holds f)))
  rw [List.all_append, ← Bool.and_assoc, Bool.and_comm]

theorem evaluate_append_row (htrim : Text.trim e.toList = e.toList)
    (hfound : QueryEngine.pathExpressions.evaluate p e = .ok found)
    (hws : ∀ w ∈ ws, w.WellFormed) :
    QueryEngine.pathExpressions.evaluate p (e ++ String.ofList (WrittenCondition.row ws)) =
      .ok (found.filter fun f => (ws.map (·.condition)).all (·.holds f)) := by
  obtain ⟨q, hq, rfl⟩ := evaluate_eq_ok_iff.mp hfound
  rw [← evaluate_append_conditions]
  exact evaluate_eq_ok_iff.mpr ⟨_, read_append_row htrim hq hws, rfl⟩

/-- One more condition takes away the files that do not meet it. -/
theorem evaluate_append_condition (htrim : Text.trim e.toList = e.toList)
    (hfound : QueryEngine.pathExpressions.evaluate p e = .ok found) {c : Condition}
    (hc : '\'' ∉ c.value.toList) :
    QueryEngine.pathExpressions.evaluate p (e ++ c.text) =
      .ok (found.filter fun f => c.holds f) := by
  have hone : ∀ d ∈ [c], '\'' ∉ d.value.toList := fun d hd => List.mem_singleton.mp hd ▸ hc
  have happend := evaluate_append_row htrim hfound (WrittenCondition.wellFormed_plainly hone)
  rw [WrittenCondition.row_plainly_singleton, WrittenCondition.map_condition_plainly] at happend
  simpa using happend

/-- Which conditions there are decides which files pass all of them. -/
theorem filter_congr_conditions {cs ds : List Condition} (h : ∀ c, c ∈ cs ↔ c ∈ ds)
    (fs : List File) :
    (fs.filter fun f => cs.all (·.holds f)) = fs.filter fun f => ds.all (·.holds f) := by
  apply List.filter_congr
  intro f _
  rw [Bool.eq_iff_iff, List.all_eq_true, List.all_eq_true]
  exact forall_congr' fun c => by rw [h c]

/-! ## Any file -/

theorem pathMatches_star (path : String) : PathMatches [] ['*'] path := by
  obtain ⟨dirs, name, hfields⟩ :=
    (List.eq_nil_or_concat' (Text.fields '/' path.toList)).resolve_left (Text.fields_ne_nil _ _)
  have hname : '/' ∉ name := Text.not_mem_of_mem_fields (hfields ▸ List.mem_concat_self)
  refine ⟨[], dirs, name, hfields, rfl, utf8 name, [], (List.append_nil _).symm, ?_, rfl⟩
  exact slashByte_notMem_utf8 hname

theorem evaluate_star (p : Project) :
    QueryEngine.pathExpressions.evaluate p "/*:file" = .ok p.files := by
  have hsteps : ∀ s ∈ ([] : List (List Char)), IsStep s := fun s hs => absurd hs List.not_mem_nil
  have hname : IsStep ['*'] := by decide
  obtain ⟨text, hread⟩ := read_expressionText hsteps hname
    fun w (hw : w ∈ ([] : List WrittenCondition)) => absurd hw List.not_mem_nil
  refine evaluate_eq_ok_iff.mpr ⟨_, hread, ?_⟩
  rw [evaluate, eq_comm, List.filter_eq_self]
  intro f _
  rw [selects, (isMatch_iff_pathMatches hsteps hname).mpr (pathMatches_star f.path)]
  rfl

theorem evaluate_name (p : Project) {v : String} (hv : '\'' ∉ v.toList) :
    QueryEngine.pathExpressions.evaluate p ("/*:file[name='" ++ v ++ "']") =
      .ok (p.files.filter fun f => (Text.fields '/' f.path.toList).getLast? = some v.toList) := by
  have htext : "/*:file[name='" ++ v ++ "']" = "/*:file" ++ (Condition.name v).text := by
    apply String.ext
    simp [Condition.text, Condition.attributeName, Condition.value]
  have hname : ∀ f : File, decide ((Text.fields '/' f.path.toList).getLast? = some v.toList) =
      (Condition.name v).holds f := by
    intro f
    rw [Bool.eq_iff_iff, decide_eq_true_iff, File.getLast?_fields_path, Option.some_inj,
      String.toList_inj]
    exact beq_iff_eq.symm
  simp only [hname]
  rw [htext]
  exact evaluate_append_condition (by decide) (evaluate_star p) hv

/-! ## Any expression -/

/-- **Conditions filter.** Written behind a trimmed expression that can be evaluated, a condition
takes from its files those that do not meet it, whatever its value holds but quotes, and leaves the
others in their order. Of several conditions, which there are decides the result, and neither their
order, nor how often one is written, nor blanks between them. So the name test `*` with a condition
on the name selects exactly the files whose paths have that last part. -/
theorem conditions_filter_files (p : Project) :
    (∀ e found, Text.trim e.toList = e.toList →
      QueryEngine.pathExpressions.evaluate p e = .ok found →
        (∀ c : Condition, '\'' ∉ c.value.toList →
          QueryEngine.pathExpressions.evaluate p (e ++ c.text) =
            .ok (found.filter fun f => c.holds f)) ∧
        ∀ ws vs : List WrittenCondition, (∀ w ∈ ws, w.WellFormed) → (∀ v ∈ vs, v.WellFormed) →
          (∀ c, c ∈ ws.map (·.condition) ↔ c ∈ vs.map (·.condition)) →
            QueryEngine.pathExpressions.evaluate p
                (e ++ String.ofList (WrittenCondition.row ws)) =
              QueryEngine.pathExpressions.evaluate p
                (e ++ String.ofList (WrittenCondition.row vs))) ∧
    ∀ v : String, '\'' ∉ v.toList →
      QueryEngine.pathExpressions.evaluate p ("/*:file[name='" ++ v ++ "']") =
        .ok (p.files.filter fun f =>
          (Text.fields '/' f.path.toList).getLast? = some v.toList) := by
  refine ⟨fun e found htrim hfound => ⟨?_, ?_⟩, fun v hv => evaluate_name p hv⟩
  · exact fun c hc => evaluate_append_condition htrim hfound hc
  · intro ws vs hws hvs hsame
    rw [evaluate_append_row htrim hfound hws, evaluate_append_row htrim hfound hvs,
      filter_congr_conditions hsame]

/-- Files whose names and directories look like conditions. -/
def bracketed : Project where
  files := [⟨"a/[name=x]", "first"⟩, ⟨"b\n/[name=x]", "second"⟩, ⟨"a/[name=x]/b", "third"⟩]
  nodup := by decide
  valid := by decide

theorem bracketed_name_is_selected :
    QueryEngine.pathExpressions.evaluate bracketed "/*:file[name='[name=x]']" =
        .ok [⟨"a/[name=x]", "first"⟩, ⟨"b\n/[name=x]", "second"⟩] ∧
      QueryEngine.pathExpressions.evaluate bracketed
          ("/*:file[name='[name=x]']" ++ (Condition.path "a/[name=x]").text) =
        .ok [⟨"a/[name=x]", "first"⟩] ∧
      QueryEngine.pathExpressions.evaluate bracketed
          ("/*:file" ++ String.ofList (WrittenCondition.row (plainly [.name "b", .path "a/b"]))) =
        QueryEngine.pathExpressions.evaluate bracketed
          ("/*:file" ++ String.ofList (WrittenCondition.row
            (plainly [.path "a/b", .name "b", .path "a/b"]))) := by
  obtain ⟨hexpression, hname⟩ := conditions_filter_files bracketed
  have hfound := hname "[name=x]" (by decide)
  refine ⟨hfound, ?_, ?_⟩
  · exact (hexpression _ _ (by decide) hfound).1 (.path "a/[name=x]") (by decide)
  · have hfirst : ∀ w ∈ plainly [.name "b", .path "a/b"], w.WellFormed :=
      wellFormed_plainly (by decide)
    have hsecond : ∀ w ∈ plainly [.path "a/b", .name "b", .path "a/b"], w.WellFormed :=
      wellFormed_plainly (by decide)
    have hsame := (hexpression "/*:file" _ (by decide) (evaluate_star bracketed)).2 _ _ hfirst
      hsecond
    rw [map_condition_plainly, map_condition_plainly] at hsame
    refine hsame fun c => ?_
    simp only [List.mem_cons, List.not_mem_nil, or_false]
    constructor
    · rintro (h | h)
      · exact .inr (.inl h)
      · exact .inl h
    · rintro (h | h | h)
      · exact .inr h
      · exact .inl h
      · exact .inr h

end Query

end SourceEdit
