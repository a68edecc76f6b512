import SourceEdit.Proofs.Binding.Refusal
import SourceEdit.Proofs.Pattern.WholeValue

/-!
# Unusable patterns

A declared pattern is used in its anchored form. That of an expression that can be read on its own
can be read too, within the same limits, unless the expression ends within a comment: the closing
anchor is then a part of the comment. So binding reports a pattern for one of four reasons, and the
last of them is about expressions that can be read.
-/

namespace SourceEdit

namespace Pattern

variable {source : String} {alone : Pattern}

/-- Whether the limits leave room for the anchors and the group around an expression. -/
def HasRoom (source : String) : Prop :=
  ∀ node depth, tree? source.toList = some (node, depth) →
    depth + 2 ≤ maxDepth ∧ node.anchored.space leafSpace ≤ maxSpace

theorem exists_ofString?_iff :
    (ofString? source).isSome = true ↔ ∃ node depth, tree? source.toList = some (node, depth) ∧
      depth ≤ maxDepth ∧ node.space leafSpace ≤ maxSpace := by
  rw [ofString?, Option.isSome_map, Option.isSome_iff_exists]
  exact exists_congr fun node => read?_eq_some_iff

/-- **The anchored form is readable** if the expression is, does not end within a comment and leaves
room. -/
theorem isSome_anchored_iff (halone : ofString? source = some alone) :
    (ofString? (anchoredSource source)).isSome = true ↔
      ¬ EndsInComment source.toList ∧ HasRoom source := by
  obtain ⟨node, depth, htree, -, -⟩ := exists_ofString?_iff.mp (Option.isSome_of_mem halone)
  rw [exists_ofString?_iff]
  rcases tree?_anchored htree with ⟨hcomment, hanchored⟩ | ⟨hcomment, hnone⟩
  · rw [and_iff_right hcomment, hanchored]
    constructor
    · rintro ⟨node', depth', heq, hdepth, hspace⟩ node'' depth'' htree'
      obtain ⟨rfl, rfl⟩ := Prod.mk.inj (Option.some.inj heq)
      obtain ⟨rfl, rfl⟩ := Prod.mk.inj (Option.some.inj (htree.symm.trans htree'))
      exact ⟨hdepth, hspace⟩
    · intro hroom
      exact ⟨_, _, rfl, hroom node depth htree⟩
  · rw [hnone]
    refine iff_of_false ?_ fun h => h.1 hcomment
    rintro ⟨_, _, heq, -⟩
    exact nomatch heq

/-- An expression that ends within a comment is unreadable alone or between the anchors. -/
theorem wholeValue?_of_endsInComment (hcomment : EndsInComment source.toList) :
    wholeValue? source = none := by
  rw [wholeValue?_eq_none_iff]
  cases halone : ofString? source with
  | none => exact .inl rfl
  | some alone =>
      refine .inr (Option.not_isSome_iff_eq_none.mp fun hanchored => ?_)
      exact ((isSome_anchored_iff halone).mp hanchored).1 hcomment

end Pattern

variable {c : Catalog} {raw : Dict String} {s : Schema} {p : Parameter} {field pattern : String}
  {fault : PatternFault}

theorem Catalog.resolve?_eq_none_iff : c.resolve? pattern = none ↔
    ∃ name, pattern.toList = '$' :: name ∧ c.get? (String.ofList name) = none := by
  unfold Catalog.resolve?
  split
  · next name hname =>
    constructor
    · exact fun h => ⟨name, hname, h⟩
    · rintro ⟨name', hname', h⟩
      obtain ⟨-, rfl⟩ := List.cons.inj (hname.symm.trans hname')
      exact h
  · next hplain =>
    refine iff_of_false (fun h => nomatch h) ?_
    rintro ⟨name, hname, -⟩
    exact hplain name hname

/-- Whether a declared pattern is faulty: it refers to a name that the catalog does not have, or
what it stands for cannot be read alone, ends within a comment, or leaves the anchors no room. -/
inductive Catalog.Faulty (c : Catalog) (declared : String) : PatternFault → Prop
  | unknownName {name : List Char} (hdeclared : declared.toList = '$' :: name)
      (hname : c.get? (String.ofList name) = none) : Faulty c declared .unknownName
  | unreadable {source : String} (hsource : c.resolve? declared = some source)
      (hread : Pattern.ofString? source = none) : Faulty c declared .unreadable
  | comment {source : String} (hsource : c.resolve? declared = some source)
      (hcomment : Pattern.EndsInComment source.toList) : Faulty c declared .unreadable
  | noRoom {source : String} (hsource : c.resolve? declared = some source)
      (hroom : ¬ Pattern.HasRoom source) : Faulty c declared .unreadable

theorem Catalog.Unusable.faulty (h : c.Unusable pattern fault) : c.Faulty pattern fault := by
  cases h with
  | unknownName hname =>
      obtain ⟨name, hdeclared, hname⟩ := Catalog.resolve?_eq_none_iff.mp hname
      exact .unknownName hdeclared hname
  | @unreadable source hsource hread =>
      cases halone : Pattern.ofString? source with
      | none => exact .unreadable hsource halone
      | some alone =>
          have hanchored := hread.resolve_left (by rw [halone]; exact fun h => nomatch h)
          by_cases hcomment : Pattern.EndsInComment source.toList
          · exact .comment hsource hcomment
          · refine .noRoom hsource fun hroom => ?_
            have hsome := (Pattern.isSome_anchored_iff halone).mpr ⟨hcomment, hroom⟩
            rw [hanchored] at hsome
            exact nomatch hsome

/-- A pattern that binding reports is declared, and unusable. -/
theorem Schema.unusable_of_bind (h : s.bind raw c = .error ⟨field, .invalidPattern pattern fault⟩) :
    ∃ p ∈ s.params, p.name = field ∧ p.pattern = pattern ∧ c.Unusable pattern fault := by
  rcases Schema.bind_eq_error_iff.mp h with
    ⟨before, p, after, hparams, -, hfield, hrefuses⟩ | ⟨-, hreason, -⟩
  · refine ⟨p, by simp [hparams], hfield.symm, ?_⟩
    cases hrefuses with
    | rejected hvalue hreason =>
        cases hreason with
        | invalidPattern hshort hpattern => exact ⟨rfl, hpattern⟩
  · exact nomatch hreason

/-- **Unusable patterns.** Binding reports a declared pattern as invalid only if it refers to a name
that the catalog does not have, or what it stands for cannot be read on its own, or ends within a
comment, or leaves no room for the anchors. An expression that can be read on its own can be read
with the anchors around it exactly if neither of the last two is the case. Where an expression ends
within a comment, its pattern is reported for any value that is not too long, though it be readable
on its own and match the value. -/
theorem Schema.bind_reports_faulty_pattern (s : Schema) (raw : Dict String) (c : Catalog) :
    (∀ field pattern fault, s.bind raw c = .error ⟨field, .invalidPattern pattern fault⟩ →
      ∃ p ∈ s.params, p.name = field ∧ p.pattern = pattern ∧ c.Faulty pattern fault) ∧
    (∀ source alone, Pattern.ofString? source = some alone →
      ((Pattern.ofString? (Pattern.anchoredSource source)).isSome = true ↔
        ¬ Pattern.EndsInComment source.toList ∧ Pattern.HasRoom source)) ∧
    ∀ before p after value source, s.params = before ++ p :: after →
      (∀ q ∈ before, q.Admits c raw) → p.effective? raw = some value →
      value.length ≤ p.maxLength → c.resolve? p.pattern = some source →
      Pattern.EndsInComment source.toList →
        s.bind raw c = .error ⟨p.name, .invalidPattern p.pattern .unreadable⟩ := by
  refine ⟨?_, fun source alone => Pattern.isSome_anchored_iff, ?_⟩
  · intro field pattern fault h
    obtain ⟨p, hp, hname, hpattern, hunusable⟩ := Schema.unusable_of_bind h
    exact ⟨p, hp, hname, hpattern, hunusable.faulty⟩
  · intro before p after value source hparams hbefore hvalue hshort hsource hcomment
    have hread := Pattern.wholeValue?_eq_none_iff.mp (Pattern.wholeValue?_of_endsInComment hcomment)
    exact Schema.bind_eq_error_iff.mpr (.inl ⟨before, p, after, hparams, hbefore, rfl,
      .rejected hvalue (.invalidPattern hshort (.unreadable hsource hread))⟩)

def commentedSchema : Schema := ⟨[{ name := "x", pattern := "(?x)a # b" }]⟩

theorem commentedSchema_is_refused :
    (Pattern.ofString? "(?x)a # b").isSome = true ∧ Pattern.EndsInComment "(?x)a # b".toList ∧
      commentedSchema.bind ((∅ : Dict String).insert "x" "a") .builtin =
        .error ⟨"x", .invalidPattern "(?x)a # b" .unreadable⟩ ∧
      Catalog.builtin.Faulty "(?x)a # b" .unreadable := by
  obtain ⟨honly, hanchored, hreported⟩ := Schema.bind_reports_faulty_pattern commentedSchema
    ((∅ : Dict String).insert "x" "a") .builtin
  have halone : (Pattern.ofString? "(?x)a # b").isSome = true := by decide +kernel
  have hnone : (Pattern.ofString? (Pattern.anchoredSource "(?x)a # b")).isSome = false := by
    decide +kernel
  have hroom : Pattern.HasRoom "(?x)a # b" := by
    have hall : (Pattern.tree? "(?x)a # b".toList).all (fun t => t.2 + 2 ≤ Pattern.maxDepth &&
        t.1.anchored.space Pattern.leafSpace ≤ Pattern.maxSpace) = true := by decide +kernel
    intro node depth htree
    rw [htree] at hall
    simpa using hall
  have hcomment : Pattern.EndsInComment "(?x)a # b".toList := by
    by_contra hcomment
    obtain ⟨alone, halone⟩ := Option.isSome_iff_exists.mp halone
    rw [(hanchored _ alone halone).mpr ⟨hcomment, hroom⟩] at hnone
    exact nomatch hnone
  have hbind := hreported [] _ [] "a" "(?x)a # b" rfl (by simp) (by decide) (by decide) (by decide)
    hcomment
  obtain ⟨_, -, -, -, hfaulty⟩ := honly _ _ _ hbind
  exact ⟨halone, hcomment, hbind, hfaulty⟩

end SourceEdit
