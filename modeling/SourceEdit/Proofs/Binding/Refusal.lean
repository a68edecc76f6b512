import SourceEdit.Proofs.Binding
import SourceEdit.Proofs.Text.ByteOrder

/-!
# What a refused binding reports

The declarations are tried in order. The first that refuses the raw input is reported, with the
first of its reasons that applies; only where none of them refuses it is a name reported that is not
declared, the smallest in the order of bytes. So nothing behind the declaration that is reported,
and nothing about a parameter that is skipped, has a part in the report.
-/

namespace SourceEdit

open Outcome

/-! ## Reasons -/

/-- What makes a declared pattern unusable: it refers to a name that the catalog does not have, or
what it stands for cannot be read, either alone or with the anchors of a whole text around it. -/
inductive Catalog.Unusable (c : Catalog) (declared : String) : PatternFault → Prop
  | unknownName (hname : c.resolve? declared = none) : Unusable c declared .unknownName
  | unreadable {source : String} (hsource : c.resolve? declared = some source)
      (hread : Pattern.ofString? source = none ∨
        Pattern.ofString? (Pattern.anchoredSource source) = none) :
      Unusable c declared .unreadable

/-- Why a declaration rejects a value. Each reason is given only where those before it do not
apply. -/
inductive Parameter.Rejects (p : Parameter) (c : Catalog) (value : String) : BindReason → Prop
  | tooLong (hlong : p.maxLength < value.length) :
      Rejects p c value (.tooLong p.maxLength value.length)
  | invalidPattern {fault : PatternFault} (hshort : value.length ≤ p.maxLength)
      (hpattern : c.Unusable p.pattern fault) :
      Rejects p c value (.invalidPattern p.pattern fault)
  | patternMismatch (hshort : value.length ≤ p.maxLength)
      (husable : ∀ fault, ¬ c.Unusable p.pattern fault) (hfit : ¬ c.Fits p.pattern value) :
      Rejects p c value (.patternMismatch p.pattern)

/-- Why a declaration refuses raw input: what it requires is not supplied, or it rejects the value
that it takes. -/
inductive Parameter.Refuses (p : Parameter) (c : Catalog) (raw : Dict String) :
    BindReason → Prop
  | missing (hrequired : p.required = true) (hraw : raw.get? p.name = none) :
      Refuses p c raw .missingRequired
  | rejected {value : String} {reason : BindReason} (hvalue : p.effective? raw = some value)
      (hreason : p.Rejects c value reason) : Refuses p c raw reason

/-- Whether a name is the smallest, in the order of bytes, of those that are supplied and not
declared. -/
structure Schema.FirstUndeclared (s : Schema) (raw : Dict String) (name : String) : Prop where
  supplied : name ∈ raw.keys
  undeclared : ∀ p ∈ s.params, p.name ≠ name
  least : ∀ other ∈ raw.keys, (∀ p ∈ s.params, p.name ≠ other) →
    other = name ∨ Text.bytes name < Text.bytes other

variable {c : Catalog} {raw raw' : Dict String} {p : Parameter} {b : Bundle} {e : BindError}

/-! ## One value -/

theorem Pattern.wholeValue?_eq_none_iff {source : String} :
    Pattern.wholeValue? source = none ↔
      Pattern.ofString? source = none ∨
        Pattern.ofString? (Pattern.anchoredSource source) = none := by
  unfold Pattern.wholeValue?
  cases Pattern.ofString? source with
  | none => simp
  | some alone => simp

theorem Catalog.compile_eq_error_iff {declared : String} {fault : PatternFault} :
    c.compile declared = .error fault ↔ c.Unusable declared fault := by
  unfold Catalog.compile
  constructor
  · intro h
    cases hsource : c.resolve? declared with
    | none =>
        rw [hsource] at h
        obtain rfl := Except.error.inj h
        exact .unknownName hsource
    | some source =>
        rw [hsource] at h
        dsimp only at h
        cases hwhole : Pattern.wholeValue? source with
        | none =>
            rw [hwhole] at h
            obtain rfl := Except.error.inj h
            exact .unreadable hsource (Pattern.wholeValue?_eq_none_iff.mp hwhole)
        | some whole =>
            rw [hwhole] at h
            cases h
  · intro h
    cases h with
    | unknownName hname => rw [hname]
    | unreadable hsource hread =>
        rw [hsource]
        dsimp only
        rw [Pattern.wholeValue?_eq_none_iff.mpr hread]

theorem Parameter.check_eq_error_iff {value : String} :
    p.check c value = .error e ↔ e.field = p.name ∧ p.Rejects c value e.reason := by
  obtain ⟨field, reason⟩ := e
  rw [Parameter.check]
  constructor
  · intro h
    split at h
    · next hlong =>
      obtain ⟨rfl, rfl⟩ := BindError.mk.inj (Except.error.inj h)
      exact ⟨rfl, .tooLong hlong⟩
    · next hlong =>
      have hshort : value.length ≤ p.maxLength := Nat.le_of_not_lt hlong
      split at h
      · next fault hcompile =>
        obtain ⟨rfl, rfl⟩ := BindError.mk.inj (Except.error.inj h)
        exact ⟨rfl, .invalidPattern hshort (Catalog.compile_eq_error_iff.mp hcompile)⟩
      · next pattern hcompile =>
        split at h
        · cases h
        · next hmatch =>
          obtain ⟨rfl, rfl⟩ := BindError.mk.inj (Except.error.inj h)
          refine ⟨rfl, .patternMismatch hshort ?_ ?_⟩
          · intro fault hunusable
            rw [Catalog.compile_eq_error_iff.mpr hunusable] at hcompile
            cases hcompile
          · intro hfits
            obtain ⟨pattern', hcompile', hmatch'⟩ := Catalog.fits_iff_compile.mp hfits
            obtain rfl := Except.ok.inj (hcompile.symm.trans hcompile')
            exact hmatch hmatch'
  · rintro ⟨rfl, h⟩
    cases h with
    | tooLong hlong => rw [if_pos hlong]
    | invalidPattern hshort hpattern =>
        rw [if_neg (Nat.not_lt.mpr hshort), Catalog.compile_eq_error_iff.mpr hpattern]
    | patternMismatch hshort husable hfit =>
        rw [if_neg (Nat.not_lt.mpr hshort)]
        cases hcompile : c.compile p.pattern with
        | error fault => exact absurd (Catalog.compile_eq_error_iff.mp hcompile) (husable fault)
        | ok pattern =>
            dsimp only
            refine if_neg fun hmatch => ?_
            exact hfit (Catalog.fits_iff_compile.mpr ⟨pattern, hcompile, hmatch⟩)

/-! ## One declaration -/

/-- **Step.** Binding one declaration fails exactly if it refuses the raw input, and reports its
name and the reason. -/
theorem Schema.bindOne_eq_error_iff :
    Schema.bindOne c raw b p = .error e ↔ e.field = p.name ∧ p.Refuses c raw e.reason := by
  obtain ⟨field, reason⟩ := e
  unfold Schema.bindOne
  rw [bind_eq_error_iff]
  by_cases hmissing : raw.get? p.name = none ∧ p.required = true
  · obtain ⟨hraw, hrequired⟩ := hmissing
    have hvalue : p.effective? raw = none := by
      rw [Parameter.effective?, hraw]
      exact if_pos hrequired
    have hfails : Schema.valueFor raw p = .error ⟨p.name, .missingRequired⟩ := by
      rw [Schema.valueFor, hraw]
      exact if_pos hrequired
    constructor
    · rintro (h | ⟨_, h, -⟩)
      · obtain ⟨rfl, rfl⟩ := BindError.mk.inj (Except.error.inj (hfails.symm.trans h))
        exact ⟨rfl, .missing hrequired hraw⟩
      · cases hfails.symm.trans h
    · rintro ⟨rfl, h⟩
      cases h with
      | missing => exact Or.inl hfails
      | rejected hvalue' => cases hvalue.symm.trans hvalue'
  · rw [Schema.valueFor_eq_ok hmissing]
    constructor
    · rintro (h | ⟨value?, h, hrest⟩)
      · cases h
      · obtain rfl := Except.ok.inj h
        cases hvalue : p.effective? raw with
        | none =>
            rw [hvalue] at hrest
            cases hrest
        | some value =>
            rw [hvalue] at hrest
            rcases bind_eq_error_iff.mp hrest with hcheck | ⟨_, -, hpure⟩
            · obtain ⟨hfield, hreason⟩ := Parameter.check_eq_error_iff.mp hcheck
              exact ⟨hfield, .rejected hvalue hreason⟩
            · cases hpure
    · rintro ⟨hfield, h⟩
      cases h with
      | missing hrequired hraw => exact absurd ⟨hraw, hrequired⟩ hmissing
      | rejected hvalue hreason =>
          refine Or.inr ⟨_, rfl, ?_⟩
          rw [hvalue]
          exact bind_eq_error_iff.mpr (Or.inl (Parameter.check_eq_error_iff.mpr ⟨hfield, hreason⟩))

theorem Parameter.not_admits_iff : ¬ p.Admits c raw ↔ ∃ reason, p.Refuses c raw reason := by
  constructor
  · intro hnot
    cases hbind : Schema.bindOne c raw ∅ p with
    | ok b => exact absurd (Schema.bindOne_eq_ok_iff.mp hbind).1 hnot
    | error e => exact ⟨e.reason, (Schema.bindOne_eq_error_iff.mp hbind).2⟩
  · rintro ⟨reason, h⟩ hadmits
    have hfails : Schema.bindOne c raw ∅ p = .error ⟨p.name, reason⟩ :=
      Schema.bindOne_eq_error_iff.mpr ⟨rfl, h⟩
    have hbinds : Schema.bindOne c raw ∅ p = .ok (Schema.fillOne raw ∅ p) :=
      Schema.bindOne_eq_ok_iff.mpr ⟨hadmits, rfl⟩
    cases hfails.symm.trans hbinds

theorem Parameter.Refuses.unique {reason reason' : BindReason} (h : p.Refuses c raw reason)
    (h' : p.Refuses c raw reason') : reason = reason' := by
  have hfails : ∀ {r}, p.Refuses c raw r → Schema.bindOne c raw ∅ p = .error ⟨p.name, r⟩ :=
    fun h => Schema.bindOne_eq_error_iff.mpr ⟨rfl, h⟩
  exact (BindError.mk.inj (Except.error.inj ((hfails h).symm.trans (hfails h')))).2

theorem Parameter.Refuses.ne_unknownParameter {reason : BindReason} (h : p.Refuses c raw reason) :
    reason ≠ .unknownParameter := by
  rintro rfl
  cases h with
  | rejected hvalue hreason => cases hreason

/-- What a declaration makes of raw input depends on what is supplied under its name only. -/
theorem Schema.bindOne_congr (h : raw'.get? p.name = raw.get? p.name) :
    Schema.bindOne c raw' b p = Schema.bindOne c raw b p := by
  have hvalue : Schema.valueFor raw' p = Schema.valueFor raw p := by
    rw [Schema.valueFor, Schema.valueFor, h]
  rw [Schema.bindOne, Schema.bindOne, hvalue]

/-! ## All declarations -/

/-- **Run.** The loop over the declarations fails exactly if one of them refuses the raw input, and
reports the first that does. -/
theorem Schema.foldlM_bindOne_eq_error_iff {ps : List Parameter} :
    ps.foldlM (Schema.bindOne c raw) b = .error e ↔ ∃ before p after,
      ps = before ++ p :: after ∧ (∀ q ∈ before, q.Admits c raw) ∧ e.field = p.name ∧
        p.Refuses c raw e.reason := by
  rw [foldlM_eq_error_iff]
  constructor
  · rintro ⟨before, p, after, b', hps, hbefore, hone⟩
    obtain ⟨hadmits, -⟩ := Schema.foldlM_bindOne_eq_ok_iff.mp hbefore
    exact ⟨before, p, after, hps, hadmits, Schema.bindOne_eq_error_iff.mp hone⟩
  · rintro ⟨before, p, after, hps, hadmits, hreport⟩
    refine ⟨before, p, after, _, hps, Schema.foldlM_bindOne_eq_ok_iff.mpr ⟨hadmits, rfl⟩, ?_⟩
    exact Schema.bindOne_eq_error_iff.mpr hreport

/-- The name that is looked for behind the loop is the first undeclared one. -/
theorem Schema.find?_undeclared_iff {s : Schema} {name : String} :
    raw.keys.find? (fun k => (s.get? k).isNone) = some name ↔ s.FirstUndeclared raw name := by
  have htest : ∀ k, (s.get? k).isNone = true ↔ ∀ p ∈ s.params, p.name ≠ k := by
    intro k
    simp [Schema.get?]
  rw [Dict.find?_keys_eq_some_iff, htest]
  constructor
  · rintro ⟨hsupplied, hundeclared, hleast⟩
    refine ⟨hsupplied, hundeclared, ?_⟩
    intro other hother hnone
    rw [← Text.lt_iff_bytes_lt]
    exact hleast other hother ((htest other).mpr hnone)
  · rintro ⟨hsupplied, hundeclared, hleast⟩
    refine ⟨hsupplied, hundeclared, ?_⟩
    intro other hother hnone
    rw [Text.lt_iff_bytes_lt]
    exact hleast other hother ((htest other).mp hnone)

theorem Schema.bind_eq_error_iff {s : Schema} :
    s.bind raw c = .error e ↔
      (∃ before p after, s.params = before ++ p :: after ∧ (∀ q ∈ before, q.Admits c raw) ∧
        e.field = p.name ∧ p.Refuses c raw e.reason) ∨
      ((∀ p ∈ s.params, p.Admits c raw) ∧ e.reason = .unknownParameter ∧
        s.FirstUndeclared raw e.field) := by
  unfold Schema.bind
  rw [Outcome.bind_eq_error_iff, Schema.foldlM_bindOne_eq_error_iff]
  apply or_congr Iff.rfl
  simp only [Schema.foldlM_bindOne_eq_ok_iff, ← Schema.find?_undeclared_iff]
  constructor
  · rintro ⟨b, ⟨hall, -⟩, h⟩
    split at h
    · next name hfind =>
      obtain rfl := Except.error.inj h
      exact ⟨hall, rfl, hfind⟩
    · cases h
  · rintro ⟨hall, hreason, hfind⟩
    obtain ⟨field, reason⟩ := e
    obtain rfl : reason = .unknownParameter := hreason
    refine ⟨_, ⟨hall, rfl⟩, ?_⟩
    rw [hfind]

/-! ## What has no part in the report -/

/-- Once a declaration refuses the raw input, neither the declarations behind it nor what is
supplied under other names counts. -/
theorem Schema.bind_of_refusal {before : List Parameter} {reason : BindReason}
    (later : List Parameter) (hbefore : ∀ q ∈ before, q.Admits c raw)
    (hrefuses : p.Refuses c raw reason)
    (hraw : ∀ q ∈ before ++ [p], raw'.get? q.name = raw.get? q.name) :
    Schema.bind ⟨before ++ p :: later⟩ raw' c = .error ⟨p.name, reason⟩ := by
  refine Schema.bind_eq_error_iff.mpr (Or.inl ⟨before, p, later, rfl, ?_, rfl, ?_⟩)
  · intro q hq
    have hone : Schema.bindOne c raw' ∅ q = Schema.bindOne c raw ∅ q :=
      Schema.bindOne_congr (hraw q (List.mem_append_left _ hq))
    have hbinds : Schema.bindOne c raw ∅ q = .ok (Schema.fillOne raw ∅ q) :=
      Schema.bindOne_eq_ok_iff.mpr ⟨hbefore q hq, rfl⟩
    exact (Schema.bindOne_eq_ok_iff.mp (hone.trans hbinds)).1
  · have hone : Schema.bindOne c raw' ∅ p = Schema.bindOne c raw ∅ p :=
      Schema.bindOne_congr (hraw p (by simp))
    have hfails : Schema.bindOne c raw ∅ p = .error ⟨p.name, reason⟩ :=
      Schema.bindOne_eq_error_iff.mpr ⟨rfl, hrefuses⟩
    exact (Schema.bindOne_eq_error_iff.mp (hone.trans hfails)).2

theorem Schema.bindOne_of_skipped (hoptional : p.required = false)
    (hvalue : p.effective? raw = none) : Schema.bindOne c raw b p = .ok b := by
  have hpresent : ¬ (raw.get? p.name = none ∧ p.required = true) := by
    rintro ⟨-, hrequired⟩
    rw [hoptional] at hrequired
    cases hrequired
  rw [Schema.bindOne, Schema.valueFor_eq_ok hpresent, hvalue]
  rfl

/-- The pattern of a parameter that is skipped has no part in binding. -/
theorem Schema.bind_of_skipped (before after : List Parameter) (pattern : String)
    (hoptional : p.required = false) (hvalue : p.effective? raw = none) :
    Schema.bind ⟨before ++ { p with pattern } :: after⟩ raw c =
      Schema.bind ⟨before ++ p :: after⟩ raw c := by
  have hloop : ∀ b, (({ p with pattern } :: after).foldlM (Schema.bindOne c raw) b :
      Except BindError Bundle) = (p :: after).foldlM (Schema.bindOne c raw) b := by
    intro b
    rw [List.foldlM_cons, List.foldlM_cons, Schema.bindOne_of_skipped hoptional hvalue,
      Schema.bindOne_of_skipped (p := { p with pattern }) hoptional hvalue]
  have hnames : ∀ k, (Schema.get? ⟨before ++ { p with pattern } :: after⟩ k).isNone =
      (Schema.get? ⟨before ++ p :: after⟩ k).isNone := by
    intro k
    by_cases hk : p.name = k <;> simp [Schema.get?, List.find?_append, hk]
  simp only [Schema.bind, List.foldlM_append, hloop, hnames]

/-! ## Any input -/

/-- **What a refused binding reports.** The error is the name of the first declaration that refuses
the raw input, with the one reason for which it does: that nothing is supplied where something has
to be, else that the value is too long, with its length and the limit, else that the pattern is
unusable, else that it does not fit, with the pattern as it is declared. Exactly where every
declaration is satisfied it is a name that is supplied and not declared, the smallest. Declarations
behind the one that is reported, what is supplied under other names, and the pattern of a parameter
that is skipped never change it. -/
theorem Schema.bind_reports_first_refusal (s : Schema) (raw : Dict String) (c : Catalog) :
    (∀ e, s.bind raw c = .error e ↔
      (∃ before p after, s.params = before ++ p :: after ∧ (∀ q ∈ before, q.Admits c raw) ∧
        e.field = p.name ∧ p.Refuses c raw e.reason) ∨
      ((∀ p ∈ s.params, p.Admits c raw) ∧ e.reason = .unknownParameter ∧
        s.FirstUndeclared raw e.field)) ∧
    (∀ p ∈ s.params, (¬ p.Admits c raw ↔ ∃ reason, p.Refuses c raw reason) ∧
      ∀ reason reason', p.Refuses c raw reason → p.Refuses c raw reason' → reason = reason') ∧
    (∀ e, s.bind raw c = .error e →
      (e.reason = .unknownParameter ↔ ∀ p ∈ s.params, p.Admits c raw)) ∧
    (∀ before p after reason, s.params = before ++ p :: after → (∀ q ∈ before, q.Admits c raw) →
      p.Refuses c raw reason → ∀ later raw',
        (∀ q ∈ before ++ [p], raw'.get? q.name = raw.get? q.name) →
          Schema.bind ⟨before ++ p :: later⟩ raw' c = .error ⟨p.name, reason⟩) ∧
    (∀ before p after pattern, s.params = before ++ p :: after → p.required = false →
      p.effective? raw = none →
        Schema.bind ⟨before ++ { p with pattern } :: after⟩ raw c = s.bind raw c) := by
  refine ⟨fun e => Schema.bind_eq_error_iff, ?_, ?_, ?_, ?_⟩
  · intro p _
    exact ⟨Parameter.not_admits_iff, fun _ _ h h' => h.unique h'⟩
  · intro e he
    rcases Schema.bind_eq_error_iff.mp he with
      ⟨before, p, after, hparams, -, -, hrefuses⟩ | ⟨hall, hunknown, -⟩
    · refine iff_of_false hrefuses.ne_unknownParameter ?_
      intro hall
      have hadmits : p.Admits c raw := hall p (by simp [hparams])
      exact Parameter.not_admits_iff.mpr ⟨_, hrefuses⟩ hadmits
    · exact iff_of_true hunknown hall
  · intro before p after reason _ hbefore hrefuses later raw' hraw
    exact Schema.bind_of_refusal later hbefore hrefuses hraw
  · intro before p after pattern hparams hoptional hvalue
    obtain ⟨params⟩ := s
    obtain rfl : params = before ++ p :: after := hparams
    exact Schema.bind_of_skipped before after pattern hoptional hvalue

end SourceEdit
