import SourceEdit.Proofs.Registry.Requests

/-!
# The gate of a registry

A request with raw values is refused for its name or for its values, before the editor has a part in
it. Past that point there is always a result, and a fault within the edit is told as a failure. The
built-in editors ask for what they declare and nothing else, so a bundle that was bound for them
never lacks a value, and any other bundle is told apart before the project changes.
-/

namespace SourceEdit

/-! ## Faults of an edit -/

/-- An edit that succeeds, or breaks off over the project or a query: it never ends in a failure of
its own, and never breaks off over a parameter. -/
inductive Edit.SparesParameters : Edit → Prop
  | succeed (message : String) : SparesParameters (.finish (.success message))
  | ofProject (e : ProjectError) : SparesParameters (.breakOff (.project e))
  | ofQuery (e : QueryError) : SparesParameters (.breakOff (.query e))
  | inspect {next : Project → Edit} (h : ∀ p, (next p).SparesParameters) :
      SparesParameters (.inspect next)
  | add {path content : String} {next : Except ProjectError Unit → Edit}
      (h : ∀ answer, (next answer).SparesParameters) : SparesParameters (.add path content next)
  | update {path content : String} {next : Except ProjectError Unit → Edit}
      (h : ∀ answer, (next answer).SparesParameters) : SparesParameters (.update path content next)
  | remove {path : String} {next : Except ProjectError File → Edit}
      (h : ∀ answer, (next answer).SparesParameters) : SparesParameters (.remove path next)

namespace Edit.SparesParameters

theorem orBreakOff {α : Type} {next : α → Edit} (h : ∀ a, (next a).SparesParameters)
    (answer : Except ProjectError α) : (Edit.orBreakOff next answer).SparesParameters := by
  cases answer with
  | ok a => exact h a
  | error e => exact .ofProject e

theorem withSelection {engine : QueryEngine} {expression : String} {next : List File → Edit}
    (h : ∀ found, (next found).SparesParameters) :
    (Edit.withSelection engine expression next).SparesParameters := by
  apply inspect
  intro p
  cases engine.evaluate p expression with
  | ok found => exact h found
  | error e => exact .ofQuery e

/-- **Run.** How such an edit ends, on any project. -/
theorem run_cases {edit : Edit} (h : edit.SparesParameters) (p : Project) :
    (∃ message, (edit.run p).2 = .ok (.success message)) ∨
      (∃ e, (edit.run p).2 = .error (.project e)) ∨ ∃ e, (edit.run p).2 = .error (.query e) := by
  induction h generalizing p with
  | succeed message => exact Or.inl ⟨message, rfl⟩
  | ofProject e => exact Or.inr (Or.inl ⟨e, rfl⟩)
  | ofQuery e => exact Or.inr (Or.inr ⟨e, rfl⟩)
  | inspect _ ih => exact ih p p
  | add _ ih =>
      rw [Edit.run]
      split
      · exact ih _ _
      · exact ih _ _
  | update _ ih =>
      rw [Edit.run]
      split
      · exact ih _ _
      · exact ih _ _
  | remove _ ih =>
      rw [Edit.run]
      split
      · exact ih _ _
      · exact ih _ _

end Edit.SparesParameters

/-! ## Messages of faults -/

/-- What is said of a project is never what is said of a parameter. -/
theorem ProjectError.message_ne (e : ProjectError) (err : BindError) : e.message ≠ err.message := by
  unfold ProjectError.message BindError.message
  intro h
  have hstart := congrArg String.toList h
  cases e with
  | duplicatePath path => simp at hstart
  | notFound path => simp at hstart
  | invalidPath path => simp at hstart

/-- What is said of a query is never what is said of a parameter. -/
theorem QueryError.message_ne (e : QueryError) (err : BindError) : e.message ≠ err.message := by
  unfold QueryError.message BindError.message
  intro h
  have hstart := congrArg String.toList h
  cases e with
  | invalidExpression expression fault => simp at hstart
  | engine message => simp at hstart

/-! ## Editors that come with the library -/

namespace Editor

variable {ed : Editor} {bundle : Bundle} {d : Parameter}

def failedMessage (ed : Editor) (cause : String) : String :=
  ed.info.name ++ " failed: " ++ cause

inductive IsBuiltin : Editor → Prop
  | addContent : IsBuiltin addContent
  | pomReport (engine : QueryEngine) : IsBuiltin (pomReport engine)
  | recordProvenance (origin : Provenance) : IsBuiltin (recordProvenance origin)

/-- The first parameter that has to be in a bundle and is not. -/
def missing? (ed : Editor) (bundle : Bundle) : Option Parameter :=
  ed.schema.params.find? fun d => d.required && (bundle.get? d.name).isNone

/-- Whether an editor asks of a bundle what it declares to require, and nothing else. -/
structure Demands (ed : Editor) (bundle : Bundle) : Prop where
  breaksOff : ∀ d, ed.missing? bundle = some d →
    ed.edit bundle = .breakOff (.binding ⟨d.name, .missingRequired⟩)
  goesOn : ed.missing? bundle = none → (ed.edit bundle).SparesParameters

/-- An editor with one parameter that has to be there, for whose value its edit asks. -/
theorem demands_of_withValue {next : String → Edit} (hparams : ed.schema.params = [d])
    (hrequired : d.required = true) (hedit : ed.edit bundle = .withValue bundle d.name next)
    (hnext : ∀ value, (next value).SparesParameters) : ed.Demands bundle := by
  have hmissing : ed.missing? bundle =
      if (bundle.get? d.name).isNone = true then some d else none := by
    simp [missing?, hparams, hrequired]
  rw [Edit.withValue, Bundle.require] at hedit
  cases hget : bundle.get? d.name with
  | none =>
      rw [hget] at hmissing hedit
      refine ⟨?_, ?_⟩
      · intro d' hd'
        obtain rfl : d = d' := Option.some.inj (hmissing.symm.trans hd')
        exact hedit
      · intro hnone
        cases hmissing.symm.trans hnone
  | some value =>
      rw [hget] at hmissing hedit
      refine ⟨?_, ?_⟩
      · intro d' hd'
        cases hmissing.symm.trans hd'
      · intro _
        rw [hedit]
        exact hnext value

theorem IsBuiltin.demands (h : ed.IsBuiltin) (bundle : Bundle) : ed.Demands bundle := by
  cases h with
  | addContent =>
      refine demands_of_withValue rfl rfl rfl ?_
      intro content
      exact .add (Edit.SparesParameters.orBreakOff fun _ => .inspect fun _ => .succeed _)
  | pomReport engine =>
      refine demands_of_withValue rfl rfl rfl ?_
      intro packageName
      apply Edit.SparesParameters.withSelection
      intro found
      apply Edit.SparesParameters.inspect
      intro p
      exact .add (Edit.SparesParameters.orBreakOff fun _ => .inspect fun _ => .succeed _)
  | recordProvenance origin =>
      refine ⟨?_, ?_⟩
      · intro d hd
        cases hd
      · intro _
        apply Edit.SparesParameters.inspect
        intro p
        cases p.find? Manifest.path with
        | none => exact .succeed _
        | some file => exact .update (Edit.SparesParameters.orBreakOff fun _ => .succeed _)

/-- A bundle that was bound for an editor has all that it has to have. -/
theorem missing?_of_bind {raw : Dict String} {c : Catalog}
    (h : ed.schema.bind raw c = .ok bundle) : ed.missing? bundle = none := by
  rw [missing?, List.find?_eq_none]
  intro d hd hmissing
  rw [Bool.and_eq_true, Option.isNone_iff_eq_none] at hmissing
  obtain ⟨hrequired, hnone⟩ := hmissing
  obtain ⟨value, -, hvalue⟩ := Schema.get?_of_required h hd hrequired
  cases hnone.symm.trans hvalue

theorem run_of_breakOff {e : EditError} (h : ed.edit bundle = .breakOff e) (p : Project) :
    ed.run p bundle = (p, .failure (ed.failedMessage e.message)) := by
  rw [Editor.run, h]
  rfl

theorem run_eq (ed : Editor) (p : Project) (bundle : Bundle) :
    ed.run p bundle = (((ed.edit bundle).run p).1, match ((ed.edit bundle).run p).2 with
      | .ok result => result
      | .error fault => .failure (ed.failedMessage fault.message)) := by
  rw [Editor.run]
  split
  · next hrun => rw [hrun]
  · next hrun =>
    rw [hrun]
    rfl

theorem failedMessage_inj {cause cause' : String} :
    ed.failedMessage cause = ed.failedMessage cause' ↔ cause = cause' := by
  rw [failedMessage, failedMessage]
  exact String.append_right_inj _

/-- A failure of an editor that spares parameters is not told like one of a parameter. -/
theorem run_ne_of_spares (h : (ed.edit bundle).SparesParameters) (p : Project) (err : BindError) :
    (ed.run p bundle).2 ≠ .failure (ed.failedMessage err.message) := by
  rw [run_eq]
  intro htold
  rcases h.run_cases p with ⟨message, hend⟩ | ⟨e, hend⟩ | ⟨e, hend⟩
  · rw [hend] at htold
    cases congrArg EditResult.status htold
  · rw [hend] at htold
    exact e.message_ne err (failedMessage_inj.mp (congrArg EditResult.message htold))
  · rw [hend] at htold
    exact e.message_ne err (failedMessage_inj.mp (congrArg EditResult.message htold))

structure TakesBundles (ed : Editor) : Prop where
  /-- A bundle that was bound for the editor has what it requires. -/
  bound : ∀ raw c b, ed.schema.bind raw c = .ok b → ∀ d ∈ ed.schema.params, d.required = true →
    ∃ value, b.require d.name = .ok value
  /-- With such a bundle the edit does not break off over a parameter, and no failure is told like
  one of a parameter. -/
  spares : ∀ raw c b, ed.schema.bind raw c = .ok b → ∀ p (err : BindError),
    ((ed.edit b).run p).2 ≠ .error (.binding err) ∧
      (ed.run p b).2 ≠ .failure (ed.failedMessage err.message)
  /-- With any bundle that lacks what is required, the editor fails, names the parameter, and leaves
  the project as it is. -/
  lacking : ∀ d ∈ ed.schema.params, d.required = true → ∀ b p, b.get? d.name = none →
    ed.run p b = (p, .failure (ed.failedMessage (BindError.mk d.name .missingRequired).message))

/-- No built-in editor declares two parameters. -/
theorem IsBuiltin.eq_of_mem {d' : Parameter} (h : ed.IsBuiltin) (hd : d ∈ ed.schema.params)
    (hd' : d' ∈ ed.schema.params) : d = d' := by
  cases h with
  | addContent => exact (List.mem_singleton.mp hd).trans (List.mem_singleton.mp hd').symm
  | pomReport engine => exact (List.mem_singleton.mp hd).trans (List.mem_singleton.mp hd').symm
  | recordProvenance origin => cases hd

theorem IsBuiltin.takesBundles (h : ed.IsBuiltin) : ed.TakesBundles where
  bound := by
    intro raw c b hbind d hd hrequired
    obtain ⟨value, -, hvalue⟩ := Schema.get?_of_required hbind hd hrequired
    exact ⟨value, require_of_get? hvalue⟩
  spares := by
    intro raw c b hbind p err
    have hspares := (h.demands b).goesOn (missing?_of_bind hbind)
    refine ⟨?_, run_ne_of_spares hspares p err⟩
    intro hend
    rcases hspares.run_cases p with ⟨_, hother⟩ | ⟨_, hother⟩ | ⟨_, hother⟩
    · cases hend.symm.trans hother
    · cases hend.symm.trans hother
    · cases hend.symm.trans hother
  lacking := by
    intro d hd hrequired b p hget
    have hsome : (ed.missing? b).isSome = true := by
      rw [missing?, List.find?_isSome]
      refine ⟨d, hd, ?_⟩
      rw [hrequired, hget]
      rfl
    obtain ⟨d', hmissing⟩ := Option.isSome_iff_exists.mp hsome
    obtain rfl : d = d' := h.eq_of_mem hd (List.mem_of_find?_eq_some hmissing)
    exact run_of_breakOff ((h.demands b).breaksOff d hmissing) p

end Editor

/-! ## Requests in place -/

namespace Registry

variable {r r' : Registry} {name : String} {p p' : Project} {raw : Dict String} {bundle : Bundle}
  {ed : Editor} {e : RegistryError}

/-- What is carried out on a project that is there throughout, also when it is refused. -/
abbrev InPlace := ExceptT RegistryError (StateM Project)

def runInPlace (r : Registry) (name : String) (bundle : Bundle) : InPlace EditResult := do
  let ed ← r.find name
  let (p', result) := ed.run (← get) bundle
  set p'
  return result

def invokeInPlace (r : Registry) (name : String) (raw : Dict String) : InPlace EditResult := do
  let bundle ← r.bind name raw
  r.runInPlace name bundle

/-- In place, a request does what it does to a project that is handed over. -/
theorem run_runInPlace (r : Registry) (name : String) (bundle : Bundle) (p : Project) :
    (r.runInPlace name bundle).run.run p = (r.perform p (.run name bundle)).swap := by
  have hrun : r.outcome p (.run name bundle) = r.find name >>= fun ed => pure (ed.run p bundle) :=
    rfl
  rw [runInPlace, perform, hrun]
  cases r.find name with
  | error e => rfl
  | ok ed => rfl

theorem run_invokeInPlace (r : Registry) (name : String) (raw : Dict String) (p : Project) :
    (r.invokeInPlace name raw).run.run p = (r.perform p (.invoke name raw)).swap := by
  have hinvoke : r.outcome p (.invoke name raw) =
      r.bind name raw >>= fun bundle => r.outcome p (.run name bundle) := rfl
  rw [invokeInPlace, perform, hinvoke]
  cases hbind : r.bind name raw with
  | error e => rfl
  | ok bundle => exact r.run_runInPlace name bundle p

/-! ## Refusal -/

/-- Whether two registries know the same declarations under the same names, and the same patterns.
Their editors may do different things. -/
structure DeclaresAlike (r r' : Registry) : Prop where
  catalog : r'.catalog = r.catalog
  schema : ∀ name, r'.schema name = r.schema name

theorem find_of_get? (h : r.editors.get? name = some ed) : r.find name = .ok ed := by
  rw [find, h]

theorem find_of_unknown (h : r.editors.get? name = none) :
    r.find name = .error (.unknownEditor name) := by
  rw [find, h]

theorem bind_of_unknown (h : r.editors.get? name = none) (raw : Dict String) :
    r.bind name raw = .error (.unknownEditor name) := by
  rw [bind, schema, find_of_unknown h]
  rfl

/-- Values are refused for the name of the editor, or by its declarations. -/
theorem bind_eq_error_iff : r.bind name raw = .error e ↔
    (r.editors.get? name = none ∧ e = .unknownEditor name) ∨
      ∃ ed err, r.editors.get? name = some ed ∧ ed.schema.bind raw r.catalog = .error err ∧
        e = .binding err := by
  cases hget : r.editors.get? name with
  | none =>
      rw [bind_of_unknown hget]
      simp [eq_comm]
  | some ed =>
      rw [bind_of_found (find_of_get? hget)]
      cases hbind : ed.schema.bind raw r.catalog with
      | ok b => simp [Except.mapError, hbind]
      | error err => simp [Except.mapError, hbind, eq_comm]

/-- A request with raw values is refused exactly if the values are. -/
theorem invoke_eq_error_iff : r.invoke name p raw = .error e ↔ r.bind name raw = .error e := by
  cases hbind : r.bind name raw with
  | error e' =>
      have hinvoke : r.invoke name p raw = .error e' := by
        rw [invoke, hbind]
        rfl
      rw [hinvoke]
      simp
  | ok bundle =>
      cases hget : r.editors.get? name with
      | none =>
          cases hbind.symm.trans (bind_of_unknown hget raw)
      | some ed =>
          have hinvoke : r.invoke name p raw = .ok (ed.run p bundle) := by
            rw [invoke, hbind]
            exact run_of_found (find_of_get? hget) p bundle
          rw [hinvoke]
          constructor
          · intro h
            cases h
          · intro h
            cases h

theorem DeclaresAlike.bind_eq (h : r.DeclaresAlike r') : r'.bind name raw = r.bind name raw := by
  rw [bind, bind, h.catalog, h.schema]

/-- What a registry lets through, and what it does about the rest. -/
structure Gate (r : Registry) (name : String) (p : Project) (raw : Dict String) : Prop where
  /-- The request is refused for its name exactly if there is no editor under it. -/
  unknown : ∀ n, r.invoke name p raw = .error (.unknownEditor n) ↔
    n = name ∧ name ∉ r.editors.keys
  /-- It is refused for its values exactly if the editor's declarations refuse them. -/
  invalid : ∀ err, r.invoke name p raw = .error (.binding err) ↔
    ∃ ed, r.editors.get? name = some ed ∧ ed.schema.bind raw r.catalog = .error err
  /-- There is no other refusal. One leaves the project as it is, and it is the same whatever the
  project is and whatever the editors do. -/
  refused : ∀ e, r.invoke name p raw = .error e →
    ((∃ n, e = .unknownEditor n) ∨ ∃ err, e = .binding err) ∧
      (r.invokeInPlace name raw).run.run p = (.error e, p) ∧
      ∀ r' p', r.DeclaresAlike r' → r'.invoke name p' raw = .error e
  /-- A request that is not refused is a run of the editor with the bundle that was bound. -/
  admitted : ∀ ed b, r.editors.get? name = some ed → ed.schema.bind raw r.catalog = .ok b →
    r.bind name raw = .ok b ∧ r.invoke name p raw = r.run name p b ∧
      (r.invokeInPlace name raw).run.run p = (r.runInPlace name b).run.run p
  /-- A run of an editor always has a result: that of its edit, or a failure that names the editor
  and the fault. -/
  ends : ∀ ed b, r.editors.get? name = some ed → ∃ p' result,
    r.run name p b = .ok (p', result) ∧ (r.runInPlace name b).run.run p = (.ok result, p') ∧
      ((ed.edit b).run p = (p', .ok result) ∨ ∃ fault, (ed.edit b).run p = (p', .error fault) ∧
        result = .failure (ed.failedMessage fault.message))

theorem gate (r : Registry) (name : String) (p : Project) (raw : Dict String) :
    r.Gate name p raw where
  unknown := by
    intro n
    rw [invoke_eq_error_iff, bind_eq_error_iff, Dict.mem_keys_iff, Bool.not_eq_true,
      Option.isSome_eq_false_iff, Option.isNone_iff_eq_none]
    constructor
    · rintro (⟨hget, hn⟩ | ⟨_, _, -, -, hn⟩)
      · exact ⟨RegistryError.unknownEditor.inj hn, hget⟩
      · cases hn
    · rintro ⟨rfl, hget⟩
      exact Or.inl ⟨hget, rfl⟩
  invalid := by
    intro err
    rw [invoke_eq_error_iff, bind_eq_error_iff]
    constructor
    · rintro (⟨-, he⟩ | ⟨ed, err', hget, hbind, he⟩)
      · cases he
      · obtain rfl := RegistryError.binding.inj he
        exact ⟨ed, hget, hbind⟩
    · rintro ⟨ed, hget, hbind⟩
      exact Or.inr ⟨ed, err, hget, hbind, rfl⟩
  refused := by
    intro e he
    have hbind := invoke_eq_error_iff.mp he
    refine ⟨?_, ?_, ?_⟩
    · rcases bind_eq_error_iff.mp hbind with ⟨-, rfl⟩ | ⟨-, err, -, -, rfl⟩
      · exact Or.inl ⟨name, rfl⟩
      · exact Or.inr ⟨err, rfl⟩
    · have hrefused : r.outcome p (.invoke name raw) = .error e := he
      rw [run_invokeInPlace, perform_of_refused hrefused]
      rfl
    · intro r' p' halike
      rw [invoke_eq_error_iff, halike.bind_eq]
      exact hbind
  admitted := by
    intro ed b hget hbind
    have hbound : r.bind name raw = .ok b := by
      rw [bind_of_found (find_of_get? hget), hbind]
      rfl
    refine ⟨hbound, ?_, ?_⟩
    · rw [invoke, hbound]
      rfl
    · rw [invokeInPlace, hbound]
      rfl
  ends := by
    intro ed b hget
    have hplace : (r.runInPlace name b).run.run p = (.ok (ed.run p b).2, (ed.run p b).1) := by
      rw [run_runInPlace, perform_of_found rfl (find_of_get? hget)]
      rfl
    refine ⟨(ed.run p b).1, (ed.run p b).2, run_of_found (find_of_get? hget) p b, hplace, ?_⟩
    rw [Editor.run_eq]
    cases hend : ((ed.edit b).run p).2 with
    | ok result => exact Or.inl (Prod.ext rfl hend)
    | error fault => exact Or.inr ⟨fault, Prod.ext rfl hend, rfl⟩

/-! ## Registered editors -/

/-- Registries that are made by registering editors. -/
inductive IsBuilt : Registry → Prop
  | empty (catalog : Catalog) : IsBuilt (empty catalog)
  | withBuiltins (catalog : Catalog) : IsBuilt (withBuiltins catalog)
  | register {r r' : Registry} (ed : Editor) (h : r.IsBuilt) (hr' : r.register ed = .ok r') :
      IsBuilt r'

theorem IsBuilt.exists_bindsFirst (h : r.IsBuilt) : ∃ eds, r.BindsFirst eds := by
  induction h with
  | empty catalog => exact ⟨_, bindsFirst_registry catalog .nothing⟩
  | withBuiltins catalog => exact ⟨_, bindsFirst_registry catalog .builtins⟩
  | register ed _ hr' ih =>
      obtain ⟨eds, hbinds⟩ := ih
      have hnext := hbinds.tryRegister ed
      rw [tryRegister, hr'] at hnext
      exact ⟨_, hnext⟩

theorem IsBuilt.name_eq (h : r.IsBuilt) (hget : r.editors.get? name = some ed) :
    ed.info.name = name := by
  obtain ⟨eds, hbinds⟩ := h.exists_bindsFirst
  rw [hbinds name] at hget
  exact Editor.name_of_first? hget

/-! ## Any request -/

/-- **The gate of a registry.** A request with raw values is refused for the name of its editor, or
by the editor's declarations, and then neither the project nor what the editor does has a part in
it. Any other request is a run with the bundle that was bound, and has a result: a fault of the edit
is a failure that names the editor. A built-in editor that is asked in this way never fails over a
parameter. If it is run with a bundle that lacks what it requires, as the empty bundle does or one
that was bound for other declarations, it names the parameter and leaves the project as it is. -/
theorem invoke_is_gated (r : Registry) (name : String) (p : Project) (raw : Dict String) :
    r.Gate name p raw ∧
    (r.IsBuilt → ∀ ed, r.editors.get? name = some ed → ed.info.name = name) ∧
    ∀ ed, r.editors.get? name = some ed → ed.IsBuiltin → ed.TakesBundles ∧
      (∀ p' result, r.invoke name p raw = .ok (p', result) →
        ∀ err : BindError, result ≠ .failure (ed.failedMessage err.message)) ∧
      (∀ d ∈ ed.schema.params, d.required = true →
        (∀ b, b.get? d.name = none → r.run name p b = .ok (p, .failure
          (ed.failedMessage (BindError.mk d.name .missingRequired).message))) ∧
        (∅ : Bundle).get? d.name = none ∧
        ∀ s raw' c b, Schema.bind s raw' c = .ok b → (∀ q ∈ s.params, q.name ≠ d.name) →
          b.get? d.name = none) := by
  refine ⟨r.gate name p raw, fun h ed hget => h.name_eq hget, ?_⟩
  intro ed hget hbuiltin
  have htakes := hbuiltin.takesBundles
  refine ⟨htakes, ?_, ?_⟩
  · intro p' result hinvoke err
    cases hbind : ed.schema.bind raw r.catalog with
    | error err' =>
        cases hinvoke.symm.trans (((r.gate name p raw).invalid err').mpr ⟨ed, hget, hbind⟩)
    | ok b =>
        have hrun := ((r.gate name p raw).admitted ed b hget hbind).2.1
        rw [hinvoke, run_of_found (find_of_get? hget)] at hrun
        obtain rfl : result = (ed.run p b).2 := congrArg Prod.snd (Except.ok.inj hrun)
        exact (htakes.spares raw r.catalog b hbind p err).2
  · intro d hd hrequired
    refine ⟨?_, rfl, fun s raw' c b hbind hname => Schema.get?_of_undeclared hbind hname⟩
    intro b hlacks
    rw [run_of_found (find_of_get? hget), htakes.lacking d hd hrequired b p hlacks]

end Registry

end SourceEdit
