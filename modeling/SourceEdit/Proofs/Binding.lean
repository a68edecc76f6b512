import SourceEdit.Parameter
import SourceEdit.Proofs.Dict
import SourceEdit.Proofs.Outcome

/-!
# Binding

Which raw values bind, and to what. A declaration takes an *effective value* from the raw input:
the value supplied under its name, else its default if it is optional. Binding succeeds exactly if
nothing undeclared is supplied, nothing required is missing and every effective value is accepted
by its declaration, and the bundle then holds the effective values and nothing else.

The loop over the declarations is taken apart into two things that do not depend on each other:
`Parameter.Admits`, which says of each declaration alone whether it lets the loop go on, and
`Schema.fill`, which says what the loop leaves in the bundle.
-/

namespace SourceEdit

open Outcome

/-! ## What the declarations ask for -/

/-- The value that a declaration takes from raw input: the one supplied under its name, else the
default of an optional declaration. -/
def Parameter.effective? (raw : Dict String) (p : Parameter) : Option String :=
  match raw.get? p.name with
  | some value => some value
  | none => if p.required then none else p.default?

/-- Whether a declared pattern resolves to an expression that can be read alone and with the
anchors of a whole text around it, and in the second form matches the value. -/
def Catalog.Fits (c : Catalog) (declared value : String) : Prop :=
  ∃ source, c.resolve? declared = some source ∧ (Pattern.ofString? source).isSome = true ∧
    ∃ anchored, Pattern.ofString? (Pattern.anchoredSource source) = some anchored ∧
      anchored.isMatch value = true

/-- Whether a declaration accepts a value: it is short enough, and the pattern fits it. -/
def Parameter.Accepts (p : Parameter) (c : Catalog) (value : String) : Prop :=
  value.length ≤ p.maxLength ∧ c.Fits p.pattern value

def Parameter.Admits (p : Parameter) (c : Catalog) (raw : Dict String) : Prop :=
  (p.required = true → (raw.get? p.name).isSome = true) ∧
    ∀ value, p.effective? raw = some value → p.Accepts c value

/-- The default of the last optional declaration of a name that has one. -/
def Schema.lastDefault? (s : Schema) (name : String) : Option String :=
  (s.params.filterMap fun p =>
    if p.name = name ∧ p.required = false then p.default? else none).getLast?

/-- Whether raw input satisfies all declarations and supplies nothing else. -/
def Schema.Admits (s : Schema) (raw : Dict String) (c : Catalog) : Prop :=
  (∀ name ∈ raw.keys, ∃ p ∈ s.params, p.name = name) ∧ ∀ p ∈ s.params, p.Admits c raw

/-! ## One value -/

theorem Catalog.fits_iff_compile {c : Catalog} {declared value : String} :
    c.Fits declared value ↔
      ∃ pattern, c.compile declared = .ok pattern ∧ pattern.isMatch value = true := by
  unfold Catalog.Fits Catalog.compile Pattern.wholeValue?
  cases hs : c.resolve? declared with
  | none => simp
  | some source =>
      cases ha : Pattern.ofString? source with
      | none => simp [ha]
      | some alone =>
          cases hw : Pattern.ofString? (Pattern.anchoredSource source) with
          | none => simp [ha, hw]
          | some anchored => simp [ha, hw]

theorem Parameter.check_eq_ok_iff {p : Parameter} {c : Catalog} {value : String} :
    p.check c value = .ok () ↔ p.Accepts c value := by
  unfold Parameter.check Parameter.Accepts
  rw [Catalog.fits_iff_compile]
  by_cases hlen : value.length > p.maxLength
  · have hle : ¬ value.length ≤ p.maxLength := by omega
    simp [hlen, hle]
  · have hle : value.length ≤ p.maxLength := by omega
    simp only [hlen, if_false, hle, true_and]
    cases hc : c.compile p.pattern with
    | error fault => simp
    | ok pattern => by_cases hm : pattern.isMatch value = true <;> simp [hm]

/-! ## One declaration -/

def Schema.fillOne (raw : Dict String) (b : Bundle) (p : Parameter) : Bundle :=
  match p.effective? raw with
  | none => b
  | some value => ⟨b.values.insert p.name value⟩

theorem Schema.valueFor_eq_ok {raw : Dict String} {p : Parameter}
    (h : ¬ (raw.get? p.name = none ∧ p.required = true)) :
    Schema.valueFor raw p = .ok (p.effective? raw) := by
  unfold Schema.valueFor Parameter.effective?
  cases hraw : raw.get? p.name with
  | some value => rfl
  | none =>
      have hreq : ¬ p.required = true := fun hreq => h ⟨hraw, hreq⟩
      rw [if_neg hreq, if_neg hreq]

/-- **Step.** Binding one declaration succeeds exactly if raw input satisfies it, and puts its
effective value in. -/
theorem Schema.bindOne_eq_ok_iff {c : Catalog} {raw : Dict String} {b b' : Bundle}
    {p : Parameter} :
    Schema.bindOne c raw b p = .ok b' ↔ p.Admits c raw ∧ b' = Schema.fillOne raw b p := by
  unfold Schema.bindOne Schema.fillOne
  rw [bind_eq_ok_iff]
  by_cases hmissing : raw.get? p.name = none ∧ p.required = true
  · -- nothing is supplied where something has to be
    obtain ⟨hraw, hreq⟩ := hmissing
    simp [Schema.valueFor, Parameter.Admits, hraw, hreq]
  · rw [Schema.valueFor_eq_ok hmissing]
    have hsupplied : p.required = true → (raw.get? p.name).isSome = true := by
      intro hreq
      rw [Option.isSome_iff_ne_none]
      exact fun hraw => hmissing ⟨hraw, hreq⟩
    cases he : p.effective? raw with
    | none =>
        simp only [Except.ok.injEq, exists_eq_left', pure_eq_ok_iff, Parameter.Admits, he]
        constructor
        · rintro rfl
          exact ⟨⟨hsupplied, by rintro _ ⟨⟩⟩, rfl⟩
        · exact fun h => h.2
    | some value =>
        simp only [Except.ok.injEq, exists_eq_left', bind_eq_ok_iff, pure_eq_ok_iff,
          Parameter.Admits, he, Option.some.injEq, forall_eq', ← Parameter.check_eq_ok_iff]
        constructor
        · rintro ⟨_, hcheck, rfl⟩
          exact ⟨⟨hsupplied, hcheck⟩, rfl⟩
        · rintro ⟨⟨_, hcheck⟩, rfl⟩
          exact ⟨(), hcheck, rfl⟩

/-! ## All declarations -/

def Schema.fill (raw : Dict String) (b : Bundle) (ps : List Parameter) : Bundle :=
  ps.foldl (Schema.fillOne raw) b

/-- **Run.** The loop over the declarations succeeds exactly if raw input satisfies each of them,
and what it leaves does not depend on the checks. -/
theorem Schema.foldlM_bindOne_eq_ok_iff {c : Catalog} {raw : Dict String} {ps : List Parameter}
    {b b' : Bundle} :
    ps.foldlM (Schema.bindOne c raw) b = .ok b' ↔
      (∀ p ∈ ps, p.Admits c raw) ∧ b' = Schema.fill raw b ps := by
  induction ps generalizing b with
  | nil =>
      rw [List.foldlM_nil, pure_eq_ok_iff]
      simp [Schema.fill]
  | cons p ps ih =>
      rw [List.foldlM_cons, bind_eq_ok_iff, List.forall_mem_cons]
      constructor
      · rintro ⟨b₁, hone, hrest⟩
        obtain ⟨hp, rfl⟩ := Schema.bindOne_eq_ok_iff.mp hone
        obtain ⟨hps, hb'⟩ := ih.mp hrest
        exact ⟨⟨hp, hps⟩, hb'⟩
      · rintro ⟨⟨hp, hps⟩, hb'⟩
        exact ⟨_, Schema.bindOne_eq_ok_iff.mpr ⟨hp, rfl⟩, ih.mpr ⟨hps, hb'⟩⟩

def Schema.effectives (raw : Dict String) (ps : List Parameter) (name : String) : List String :=
  ps.filterMap fun p => if p.name = name then p.effective? raw else none

theorem Schema.get?_fill (raw : Dict String) (ps : List Parameter) (b : Bundle) (name : String) :
    (Schema.fill raw b ps).get? name =
      ((Schema.effectives raw ps name).getLast?).or (b.get? name) := by
  induction ps generalizing b with
  | nil => simp [Schema.fill, Schema.effectives]
  | cons p ps ih =>
      show (Schema.fill raw (Schema.fillOne raw b p) ps).get? name = _
      rw [ih]
      unfold Schema.fillOne Schema.effectives Bundle.get?
      cases he : p.effective? raw with
      | none => simp [he]
      | some value =>
          rw [Dict.get?_insert]
          by_cases hn : p.name = name
          · rw [if_pos hn.symm, List.filterMap_cons_some (by simp [hn, he] : _ = some value),
              List.getLast?_cons]
            cases List.getLast? _ <;> simp
          · rw [if_neg (Ne.symm hn), List.filterMap_cons_none (by simp [hn])]

theorem Schema.declared_iff {s : Schema} {name : String} :
    (s.get? name).isSome = true ↔ ∃ p ∈ s.params, p.name = name := by
  simp [Schema.get?, List.find?_isSome]

/-- Binding succeeds exactly if raw input satisfies the schema, and fills the empty bundle. -/
theorem Schema.bind_eq_ok_iff {s : Schema} {raw : Dict String} {c : Catalog} {b : Bundle} :
    s.bind raw c = .ok b ↔ s.Admits raw c ∧ b = Schema.fill raw ∅ s.params := by
  unfold Schema.bind Schema.Admits
  rw [Outcome.bind_eq_ok_iff]
  simp only [Schema.foldlM_bindOne_eq_ok_iff, ← Schema.declared_iff]
  cases hfind : raw.keys.find? (fun k => (s.get? k).isNone) with
  | some name =>
      have hmem : name ∈ raw.keys := List.mem_of_find?_eq_some hfind
      have hundeclared : ¬ (s.get? name).isSome = true := by
        simpa using List.find?_some hfind
      constructor
      · rintro ⟨_, _, h⟩
        exact absurd h (by simp)
      · rintro ⟨⟨hdeclared, _⟩, _⟩
        exact absurd (hdeclared name hmem) hundeclared
  | none =>
      have hdeclared : ∀ k ∈ raw.keys, (s.get? k).isSome = true := by
        intro k hk
        simpa [Option.isSome_iff_ne_none] using List.find?_eq_none.mp hfind k hk
      constructor
      · rintro ⟨b', ⟨hall, rfl⟩, h⟩
        exact ⟨⟨hdeclared, hall⟩, pure_eq_ok_iff.mp h⟩
      · rintro ⟨⟨_, hall⟩, rfl⟩
        exact ⟨_, ⟨hall, rfl⟩, rfl⟩

/-! ## What a bundle holds -/

theorem Schema.mem_effectives {raw : Dict String} {ps : List Parameter} {name value : String} :
    value ∈ Schema.effectives raw ps name ↔
      ∃ p ∈ ps, p.name = name ∧ p.effective? raw = some value := by
  simp only [Schema.effectives, List.mem_filterMap, Option.ite_none_right_eq_some]

theorem Schema.get?_fill_empty (raw : Dict String) (ps : List Parameter) (name : String) :
    (Schema.fill raw ∅ ps).get? name = (Schema.effectives raw ps name).getLast? := by
  rw [Schema.get?_fill]
  exact Option.or_none

theorem Schema.isSome_get?_fill {raw : Dict String} {ps : List Parameter} {name : String} :
    ((Schema.fill raw ∅ ps).get? name).isSome = true ↔
      ∃ p ∈ ps, p.name = name ∧ (p.effective? raw).isSome = true := by
  rw [Schema.get?_fill_empty, List.getLast?_isSome]
  simp only [Option.isSome_iff_exists]
  constructor
  · intro h
    obtain ⟨value, hv⟩ := List.exists_mem_of_ne_nil _ h
    obtain ⟨p, hp, hn, he⟩ := Schema.mem_effectives.mp hv
    exact ⟨p, hp, hn, value, he⟩
  · rintro ⟨p, hp, hn, value, he⟩
    exact List.ne_nil_of_mem (Schema.mem_effectives.mpr ⟨p, hp, hn, he⟩)

theorem Schema.get?_fill_of_supplied {raw : Dict String} {ps : List Parameter}
    {name value : String} (hraw : raw.get? name = some value) (hname : ∃ p ∈ ps, p.name = name) :
    (Schema.fill raw ∅ ps).get? name = some value := by
  rw [Schema.get?_fill_empty]
  obtain ⟨p, hp, rfl⟩ := hname
  have hall : ∀ v ∈ Schema.effectives raw ps p.name, v = value := by
    intro v hv
    obtain ⟨q, _, hq, he⟩ := Schema.mem_effectives.mp hv
    simpa [Parameter.effective?, hq, hraw] using he.symm
  have hmem : value ∈ Schema.effectives raw ps p.name :=
    Schema.mem_effectives.mpr ⟨p, hp, rfl, by simp [Parameter.effective?, hraw]⟩
  rw [List.getLast?_eq_some_getLast (List.ne_nil_of_mem hmem), Option.some.injEq]
  exact hall _ (List.getLast_mem _)

theorem Schema.get?_of_required {s : Schema} {raw : Dict String} {c : Catalog} {b : Bundle}
    {p : Parameter} (h : s.bind raw c = .ok b) (hp : p ∈ s.params) (hrequired : p.required = true) :
    ∃ value, raw.get? p.name = some value ∧ b.get? p.name = some value := by
  obtain ⟨⟨-, hadmits⟩, rfl⟩ := Schema.bind_eq_ok_iff.mp h
  obtain ⟨value, hvalue⟩ := Option.isSome_iff_exists.mp ((hadmits p hp).1 hrequired)
  exact ⟨value, hvalue, Schema.get?_fill_of_supplied hvalue ⟨p, hp, rfl⟩⟩

theorem Schema.get?_of_undeclared {s : Schema} {raw : Dict String} {c : Catalog} {b : Bundle}
    {name : String} (h : s.bind raw c = .ok b) (hname : ∀ p ∈ s.params, p.name ≠ name) :
    b.get? name = none := by
  obtain ⟨-, rfl⟩ := Schema.bind_eq_ok_iff.mp h
  rw [← Option.not_isSome_iff_eq_none, Schema.isSome_get?_fill]
  rintro ⟨p, hp, hpname, -⟩
  exact hname p hp hpname

theorem Schema.get?_fill_of_not_supplied {s : Schema} {raw : Dict String} {name : String}
    (hraw : raw.get? name = none) :
    (Schema.fill raw ∅ s.params).get? name = s.lastDefault? name := by
  rw [Schema.get?_fill_empty]
  unfold Schema.effectives Schema.lastDefault?
  congr 2
  funext p
  by_cases hn : p.name = name
  · cases hreq : p.required <;> simp [Parameter.effective?, hn, hraw, hreq]
  · simp [hn]

/-! ## Binding accepts exactly the valid inputs -/

/-- **Binding, from both sides.** Raw input binds exactly if every name in it is declared, every
required declaration is supplied, and every effective value is accepted by its declaration. The
bundle then holds the names that have an effective value; what is supplied for a name is its value,
and else the last default is; a required name can always be fetched, and nothing comes out of the
bundle that has not been accepted. -/
theorem Schema.bind_accepts_exactly_valid (s : Schema) (raw : Dict String) (c : Catalog) :
    ((∃ b, s.bind raw c = .ok b) ↔
      (∀ name ∈ raw.keys, ∃ p ∈ s.params, p.name = name) ∧
      (∀ p ∈ s.params, p.required = true → p.name ∈ raw.keys) ∧
      (∀ p ∈ s.params, ∀ value, p.effective? raw = some value → p.Accepts c value)) ∧
    (∀ b, s.bind raw c = .ok b →
      (∀ name, name ∈ b.values.keys ↔
        ∃ p ∈ s.params, p.name = name ∧ (p.effective? raw).isSome = true) ∧
      (∀ name, b.get? name = (raw.get? name).or (s.lastDefault? name)) ∧
      (∀ p ∈ s.params, p.required = true →
        ∃ value, raw.get? p.name = some value ∧ b.require p.name = .ok value) ∧
      (∀ name value, b.get? name = some value →
        ∃ p ∈ s.params, p.name = name ∧ p.effective? raw = some value ∧
          p.Accepts c value)) := by
  have hadmits : s.Admits raw c ↔
      (∀ name ∈ raw.keys, ∃ p ∈ s.params, p.name = name) ∧
      (∀ p ∈ s.params, p.required = true → p.name ∈ raw.keys) ∧
      (∀ p ∈ s.params, ∀ value, p.effective? raw = some value → p.Accepts c value) := by
    simp only [Schema.Admits, Parameter.Admits, Dict.mem_keys_iff]
    constructor
    · rintro ⟨hdeclared, hall⟩
      exact ⟨hdeclared, fun p hp => (hall p hp).1, fun p hp => (hall p hp).2⟩
    · rintro ⟨hdeclared, hreq, hacc⟩
      exact ⟨hdeclared, fun p hp => ⟨hreq p hp, hacc p hp⟩⟩
  refine ⟨?_, ?_⟩
  · rw [← hadmits]
    constructor
    · rintro ⟨b, hb⟩
      exact (Schema.bind_eq_ok_iff.mp hb).1
    · intro h
      exact ⟨_, Schema.bind_eq_ok_iff.mpr ⟨h, rfl⟩⟩
  · intro b hb
    obtain ⟨hok, rfl⟩ := Schema.bind_eq_ok_iff.mp hb
    obtain ⟨hdeclared, hreq, hacc⟩ := hadmits.mp hok
    have hvalue : ∀ name, (Schema.fill raw ∅ s.params).get? name =
        (raw.get? name).or (s.lastDefault? name) := by
      intro name
      cases hraw : raw.get? name with
      | none => rw [Option.none_or, Schema.get?_fill_of_not_supplied hraw]
      | some value =>
          have hkey : name ∈ raw.keys := by rw [Dict.mem_keys_iff, hraw]; rfl
          rw [Option.some_or, Schema.get?_fill_of_supplied hraw (hdeclared name hkey)]
    refine ⟨fun name => ?_, hvalue, fun p hp hr => ?_, fun name value h => ?_⟩
    · rw [Dict.mem_keys_iff]
      exact Schema.isSome_get?_fill
    · obtain ⟨value, hraw⟩ := Option.isSome_iff_exists.mp (Dict.mem_keys_iff.mp (hreq p hp hr))
      refine ⟨value, hraw, ?_⟩
      unfold Bundle.require
      rw [hvalue, hraw]
      rfl
    · rw [Schema.get?_fill_empty] at h
      obtain ⟨p, hp, hn, he⟩ := Schema.mem_effectives.mp (List.mem_of_getLast? h)
      exact ⟨p, hp, hn, he, hacc p hp value he⟩

end SourceEdit
