import SourceEdit.Proofs.Binding
import SourceEdit.Proofs.Pattern.WholeValue

/-!
# Whole values

The check of a value runs the anchored form of the declared pattern over it. What passes are the
values that the pattern, read without its anchors, matches from end to end.
-/

namespace SourceEdit

variable {catalog : Catalog} {declared source value : String} {alone : Pattern}

theorem Catalog.compile_of_resolve? (hsource : catalog.resolve? declared = some source)
    (halone : Pattern.ofString? source = some alone) :
    catalog.compile declared =
      match Pattern.ofString? (Pattern.anchoredSource source) with
      | none => .error .unreadable
      | some whole => .ok whole := by
  have hwhole : Pattern.wholeValue? source = Pattern.ofString? (Pattern.anchoredSource source) := by
    rw [Pattern.wholeValue?, halone]
    rfl
  rw [Catalog.compile, hsource]
  exact congrArg (fun whole? => match whole? with
    | none => Except.error PatternFault.unreadable
    | some whole => .ok whole) hwhole

/-- The anchored form fits a value if there is one and the expression alone matches the value from
end to end. -/
theorem Catalog.fits_iff_matchesWhole :
    catalog.Fits declared value ↔
      (catalog.compile declared).isOk = true ∧
        ∃ source alone, catalog.resolve? declared = some source ∧
          Pattern.ofString? source = some alone ∧ alone.MatchesWhole value := by
  constructor
  · rintro ⟨source, hsource, halone, whole, hwhole, hmatch⟩
    obtain ⟨alone, halone⟩ := Option.isSome_iff_exists.mp halone
    refine ⟨?_, source, alone, hsource, halone, ?_⟩
    · rw [Catalog.compile_of_resolve? hsource halone, hwhole]
      rfl
    · exact (Pattern.isMatch_anchored halone hwhole value).mp hmatch
  · rintro ⟨hok, source, alone, hsource, halone, hmatch⟩
    rw [Catalog.compile_of_resolve? hsource halone] at hok
    cases hwhole : Pattern.ofString? (Pattern.anchoredSource source) with
    | none =>
        rw [hwhole] at hok
        exact nomatch hok
    | some whole =>
        refine ⟨source, hsource, Option.isSome_of_mem halone, whole, hwhole, ?_⟩
        exact (Pattern.isMatch_anchored halone hwhole value).mpr hmatch

/-- An expression without anchors in it fits the values that it accepts, if its anchored form can be
read as well. -/
theorem Catalog.fits_iff_accepts {node : Pattern.Node Unicode.CodeSet}
    (hsource : catalog.resolve? declared = some source)
    (hread : Pattern.read? source.toList = some node)
    (hanchored : (Pattern.ofString? (Pattern.anchoredSource source)).isSome = true)
    (hfree : node.isAnchorFree = true) :
    catalog.Fits declared value ↔ Pattern.Accepts Unicode.CodeSet.contains node value.toList := by
  have halone : Pattern.ofString? source = some ⟨source, node⟩ := by
    rw [Pattern.ofString?, hread]
    rfl
  obtain ⟨whole, hwhole⟩ := Option.isSome_iff_exists.mp hanchored
  have hmatch := (Pattern.isMatch_anchored halone hwhole value).trans
    (Pattern.reach_iff_accepts hfree)
  rw [← hmatch]
  constructor
  · rintro ⟨source', hsource', -, whole', hwhole', h⟩
    rw [hsource] at hsource'
    obtain rfl := Option.some.inj hsource'
    rw [hwhole] at hwhole'
    obtain rfl := Option.some.inj hwhole'
    exact h
  · exact fun h => ⟨source, hsource, Option.isSome_of_mem halone, whole, hwhole, h⟩

/-- **Patterns match whole values.** A value passes the check exactly if it is short enough and
the expression that the declared pattern stands for, as read on its own, matches it from its first
character to its last; an expression that cannot be read on its own lets no value pass. -/
theorem Parameter.check_accepts_exactly_whole_matches (p : Parameter) (catalog : Catalog)
    (value : String) :
    (p.check catalog value = .ok () ↔
      value.length ≤ p.maxLength ∧ (catalog.compile p.pattern).isOk = true ∧
        ∃ source alone, catalog.resolve? p.pattern = some source ∧
          Pattern.ofString? source = some alone ∧ alone.MatchesWhole value) ∧
    ∀ source, catalog.resolve? p.pattern = some source → Pattern.ofString? source = none →
      value.length ≤ p.maxLength →
        p.check catalog value = .error ⟨p.name, .invalidPattern p.pattern .unreadable⟩ := by
  constructor
  · rw [Parameter.check_eq_ok_iff, Parameter.Accepts, Catalog.fits_iff_matchesWhole]
  · intro source hsource hunreadable hlength
    have hcompile : catalog.compile p.pattern = .error .unreadable := by
      simp only [Catalog.compile, hsource, Pattern.wholeValue?, hunreadable]
      rfl
    simp only [Parameter.check, Nat.not_lt.mpr hlength, if_false, hcompile]

/-- Closing the group around an expression makes it unreadable on its own. -/
example : (Pattern.ofString? "a)|(?:b").isNone = true := by decide +kernel

/-- A comment at the end of an expression swallows the anchor. -/
example : (Pattern.ofString? "(?x)a # b").isSome = true ∧
    (Pattern.wholeValue? "(?x)a # b").isNone = true := by decide +kernel

end SourceEdit
