import SourceEdit.Editor
import SourceEdit.Proofs.Binding

/-!
# Binding again

What has been bound binds to itself. Binding sees no more of raw input than the effective value of
each declaration (`Schema.bind_congr`), and where names are declared once, a bundle has under each
of them the effective value from which it came. So the defaults that were filled in pass as input,
what was skipped is skipped again, and it makes no difference whether a default is supplied or left
out.
-/

namespace SourceEdit

variable {s : Schema} {ps : List Parameter} {p : Parameter} {raw raw' : Dict String}
  {c : Catalog} {b : Bundle}

/-! ## Schemas that declare each name once -/

def Schema.HasDistinctNames (s : Schema) : Prop := (s.params.map (·.name)).Nodup

theorem Schema.effectives_of_nodup (hdistinct : (ps.map (·.name)).Nodup) (hp : p ∈ ps) :
    Schema.effectives raw ps p.name = (p.effective? raw).toList := by
  induction ps with
  | nil => cases hp
  | cons q ps ih =>
      rw [List.map_cons, List.nodup_cons] at hdistinct
      obtain ⟨hq, hdistinct⟩ := hdistinct
      rcases List.mem_cons.mp hp with rfl | hp
      · have hrest : Schema.effectives raw ps p.name = [] := by
          rw [List.eq_nil_iff_forall_not_mem]
          intro value hvalue
          obtain ⟨q, hmem, hname, -⟩ := Schema.mem_effectives.mp hvalue
          exact hq (List.mem_map.mpr ⟨q, hmem, hname⟩)
        rw [Schema.effectives] at hrest ⊢
        rw [List.filterMap_cons, if_pos rfl, hrest]
        cases p.effective? raw with
        | none => rfl
        | some value => rfl
      · have hne : q.name ≠ p.name := fun hname => hq (List.mem_map.mpr ⟨p, hp, hname.symm⟩)
        rw [← ih hdistinct hp, Schema.effectives, List.filterMap_cons, if_neg hne]
        rfl

theorem Schema.get?_of_declared (hdistinct : s.HasDistinctNames) (h : s.bind raw c = .ok b)
    (hp : p ∈ s.params) : b.get? p.name = p.effective? raw := by
  obtain ⟨-, rfl⟩ := Schema.bind_eq_ok_iff.mp h
  rw [Schema.get?_fill_empty, Schema.effectives_of_nodup hdistinct hp]
  cases p.effective? raw with
  | none => rfl
  | some value => rfl

/-! ## What binding sees of raw input -/

theorem Schema.fill_congr (h : ∀ p ∈ ps, p.effective? raw' = p.effective? raw) :
    Schema.fill raw' b ps = Schema.fill raw b ps := by
  refine List.foldl_ext _ _ b ?_
  intro b p hp
  rw [Schema.fillOne, Schema.fillOne, h p hp]

/-- Raw input that supplies what is required and nothing undeclared binds to what other raw input
does that has the same effective values. -/
theorem Schema.bind_congr (h : s.bind raw c = .ok b)
    (hdeclared : ∀ name ∈ raw'.keys, ∃ p ∈ s.params, p.name = name)
    (hsupplied : ∀ p ∈ s.params, p.required = true → (raw'.get? p.name).isSome = true)
    (heffective : ∀ p ∈ s.params, p.effective? raw' = p.effective? raw) :
    s.bind raw' c = .ok b := by
  obtain ⟨⟨-, hadmits⟩, rfl⟩ := Schema.bind_eq_ok_iff.mp h
  refine Schema.bind_eq_ok_iff.mpr ⟨⟨hdeclared, fun p hp => ⟨hsupplied p hp, ?_⟩⟩, ?_⟩
  · rw [heffective p hp]
    exact (hadmits p hp).2
  · exact (Schema.fill_congr heffective).symm

/-! ## Bundles as input -/

/-- A declaration takes from a bundle what it took from the input: what is filled in is supplied
now, and what was skipped has no default. -/
theorem Parameter.effective?_bound (hdistinct : s.HasDistinctNames) (h : s.bind raw c = .ok b)
    (hp : p ∈ s.params) : p.effective? b.values = p.effective? raw := by
  have hget : b.values.get? p.name = p.effective? raw := Schema.get?_of_declared hdistinct h hp
  cases hvalue : p.effective? raw with
  | some value => rw [Parameter.effective?, hget, hvalue]
  | none =>
      rw [Parameter.effective?, hget, hvalue]
      rw [Parameter.effective?] at hvalue
      split at hvalue
      · cases hvalue
      · exact hvalue

theorem Schema.declared_of_bound {name : String} (h : s.bind raw c = .ok b)
    (hname : name ∈ b.values.keys) : ∃ p ∈ s.params, p.name = name := by
  by_contra hnone
  push Not at hnone
  have hget : b.values.get? name = none := Schema.get?_of_undeclared h hnone
  rw [Dict.mem_keys_iff, hget] at hname
  cases hname

/-! ## Defaults left out -/

/-- Whether raw input is other raw input with some optional parameters left out whose value is their
default. -/
def Schema.LeavesOutDefaults (s : Schema) (raw raw' : Dict String) : Prop :=
  ∀ name, raw'.get? name = raw.get? name ∨
    raw'.get? name = none ∧ ∃ p ∈ s.params, p.name = name ∧ p.required = false ∧
      p.default?.isSome = true ∧ raw.get? name = p.default?

theorem Schema.LeavesOutDefaults.declared (h : s.LeavesOutDefaults raw raw')
    (hdistinct : s.HasDistinctNames) (hp : p ∈ s.params) :
    raw'.get? p.name = raw.get? p.name ∨
      raw'.get? p.name = none ∧ p.required = false ∧ raw.get? p.name = p.default? := by
  rcases h p.name with hsame | ⟨hnone, q, hq, hname, hoptional, -, hdefault⟩
  · exact Or.inl hsame
  · obtain rfl : q = p := List.inj_on_of_nodup_map hdistinct hq hp hname
    exact Or.inr ⟨hnone, hoptional, hdefault⟩

theorem Schema.LeavesOutDefaults.effective? (h : s.LeavesOutDefaults raw raw')
    (hdistinct : s.HasDistinctNames) (hp : p ∈ s.params) :
    p.effective? raw' = p.effective? raw := by
  rcases h.declared hdistinct hp with hsame | ⟨hnone, hoptional, hdefault⟩
  · rw [Parameter.effective?, Parameter.effective?, hsame]
  · rw [Parameter.effective?, Parameter.effective?, hnone, hdefault, hoptional]
    cases p.default? with
    | none => rfl
    | some value => rfl

/-- Nothing is supplied that was not supplied before, and what is required still is. -/
theorem Schema.LeavesOutDefaults.bind_eq_ok (h : s.LeavesOutDefaults raw raw')
    (hdistinct : s.HasDistinctNames) (hb : s.bind raw c = .ok b) : s.bind raw' c = .ok b := by
  obtain ⟨⟨hdeclared, hadmits⟩, -⟩ := Schema.bind_eq_ok_iff.mp hb
  apply Schema.bind_congr hb
  · intro name hname
    refine hdeclared name ?_
    rw [Dict.mem_keys_iff] at hname ⊢
    rcases h name with hsame | ⟨hnone, -⟩
    · rwa [hsame] at hname
    · rw [hnone] at hname
      cases hname
  · intro p hp hrequired
    rcases h.declared hdistinct hp with hsame | ⟨-, hoptional, -⟩
    · rw [hsame]
      exact (hadmits p hp).1 hrequired
    · rw [hoptional] at hrequired
      cases hrequired
  · intro p hp
    exact h.effective? hdistinct hp

/-! ## Any input -/

theorem Schema.bind_bound (hdistinct : s.HasDistinctNames) (h : s.bind raw c = .ok b) :
    s.bind b.values c = .ok b := by
  apply Schema.bind_congr h
  · intro name hname
    exact Schema.declared_of_bound h hname
  · intro p hp hrequired
    obtain ⟨value, -, hvalue⟩ := Schema.get?_of_required h hp hrequired
    exact Option.isSome_of_mem hvalue
  · intro p hp
    exact Parameter.effective?_bound hdistinct h hp

/-- **Binding is idempotent.** The editors that come with the library declare each of their names
once. With such a schema, what is bound from any raw input is bound once more from the values of the
bundle, and from the raw input with any optional parameters left out whose value is their
default. -/
theorem Schema.bind_is_idempotent :
    (∀ engine origin, ∀ ed ∈ [Editor.addContent, Editor.pomReport engine,
      Editor.recordProvenance origin], ed.schema.HasDistinctNames) ∧
    ∀ s : Schema, s.HasDistinctNames → ∀ raw c b, s.bind raw c = .ok b →
      s.bind b.values c = .ok b ∧ ∀ raw', s.LeavesOutDefaults raw raw' → s.bind raw' c = .ok b := by
  constructor
  · intro engine origin ed hed
    simp only [List.mem_cons, List.not_mem_nil, or_false] at hed
    rcases hed with rfl | rfl | rfl
    · exact List.nodup_singleton _
    · exact List.nodup_singleton _
    · exact List.nodup_nil
  · intro s hdistinct raw c b h
    exact ⟨Schema.bind_bound hdistinct h, fun raw' hraw' => hraw'.bind_eq_ok hdistinct h⟩

def noteSchema : Schema := ⟨[{ name := "name", pattern := "[a-z]+", maxLength := 5 },
  { name := "note", default? := some "none", required := false },
  { name := "tag", required := false }]⟩

def namedNote : Dict String := ((∅ : Dict String).insert "name" "abc").insert "note" "none"

theorem noteSchema_binds_again : noteSchema.HasDistinctNames ∧
    ∃ b, noteSchema.bind namedNote .builtin = .ok b ∧ b.values.size = 2 ∧
      noteSchema.bind b.values .builtin = .ok b ∧
      noteSchema.bind ((∅ : Dict String).insert "name" "abc") .builtin = .ok b := by
  have hdistinct : noteSchema.HasDistinctNames := by
    show ["name", "note", "tag"].Nodup
    decide
  have hsize : (noteSchema.bind namedNote .builtin).toOption.map (·.values.size) = some 2 := by
    decide +kernel
  obtain ⟨b, hb, hsize⟩ := Option.map_eq_some_iff.mp hsize
  have hbind := Outcome.eq_ok_of_toOption hb
  obtain ⟨hagain, hshort⟩ := Schema.bind_is_idempotent.2 noteSchema hdistinct namedNote _ b hbind
  refine ⟨hdistinct, b, hbind, hsize, hagain, hshort _ ?_⟩
  intro name
  rw [namedNote, Dict.get?_insert _ "note"]
  by_cases hname : name = "note"
  · refine Or.inr ⟨?_, _, List.mem_cons_of_mem _ List.mem_cons_self, hname.symm, rfl, rfl, ?_⟩
    · rw [hname]
      rfl
    · rw [if_pos hname]
  · rw [if_neg hname]
    exact Or.inl rfl

end SourceEdit
