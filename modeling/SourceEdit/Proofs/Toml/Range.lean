import SourceEdit.Toml

/-!
# Integers of TOML

Every integer in the data of a document fits 64 bits with a sign, wherever it stands: as a value, in
a list, in an inline table, or under a header or a dotted key.
-/

namespace SourceEdit.Toml

/-- Whether all integers in the data fit 64 bits with a sign. -/
inductive InRange : Data → Prop
  | null : InRange .null
  | boolean (value : Bool) : InRange (.boolean value)
  | integer {value : Int} : inRange? value = some (.integer value) → InRange (.integer value)
  | fraction : InRange .fraction
  | text (value : String) : InRange (.text value)
  | list {items : List Data} : (∀ d ∈ items, InRange d) → InRange (.list items)
  | record {fields : List (String × Data)} : (∀ f ∈ fields, InRange f.2) → InRange (.record fields)

theorem InRange.lookup {fields : List (String × Data)} {name : String} {d : Data}
    (h : InRange (.record fields)) (hfield : fields.lookup name = some d) : InRange d := by
  obtain ⟨before, after, rfl, -⟩ := List.lookup_eq_some_iff.mp hfield
  cases h with
  | record hfields => exact hfields (name, d) (List.mem_append_right _ List.mem_cons_self)

/-- Whether a reader of values gives nothing else. -/
def ReadsInRange (read? : ValueReader) : Prop :=
  ∀ cs d rest, read? cs = some (d, rest) → InRange d

variable {cs rest : List Char} {d : Data} {fuel : Nat} {read? : ValueReader}

/-! ## Values -/

theorem inRange_of_inRange? {value : Int} (h : inRange? value = some d) : InRange d := by
  have hsame : d = .integer value := by
    obtain ⟨-, h⟩ := Option.ite_none_right_eq_some.mp h
    exact (Option.some.inj h).symm
  rw [hsame] at h ⊢
  exact .integer h

theorem inRange_of_integer? (h : integer? cs = some (d, rest)) : InRange d := by
  have hbase : ∀ {base : Nat} {cs : List Char},
      ((digits? base cs).bind fun found =>
        (inRange? (valueOf base found.1)).bind fun d => some (d, found.2)) = some (d, rest) →
      InRange d := by
    intro base cs h
    obtain ⟨found, -, h⟩ := Option.bind_eq_some_iff.mp h
    obtain ⟨d', hd', h⟩ := Option.bind_eq_some_iff.mp h
    obtain ⟨rfl, -⟩ := Prod.mk.inj (Option.some.inj h)
    exact inRange_of_inRange? hd'
  unfold integer? at h
  split at h
  · exact hbase h
  · exact hbase h
  · exact hbase h
  · obtain ⟨⟨ds, rest'⟩, -, h⟩ := Option.bind_eq_some_iff.mp h
    obtain ⟨d', hd', h⟩ := Option.bind_eq_some_iff.mp h
    obtain ⟨rfl, -⟩ := Prod.mk.inj (Option.some.inj h)
    exact inRange_of_inRange? hd'

theorem eq_of_fraction? (h : fraction? cs = some (d, rest)) : d = .fraction := by
  unfold fraction? at h
  simp only [Option.bind_eq_bind, Option.pure_def, Option.bind_some] at h
  split at h
  · exact (Prod.mk.inj (Option.some.inj h)).1.symm
  · exact (Prod.mk.inj (Option.some.inj h)).1.symm
  · have hguard : ∀ {p : Prop} [Decidable p] {cs : List Char},
        (if p then none else some (Data.fraction, cs)) = some (d, rest) → d = .fraction := by
      intro p _ cs h
      obtain ⟨-, h⟩ := Option.ite_none_left_eq_some.mp h
      exact (Prod.mk.inj (Option.some.inj h)).1.symm
    obtain ⟨⟨whole, cs'⟩, -, h⟩ := Option.bind_eq_some_iff.mp h
    split at h
    · split at h
      · exact hguard h
      · exact hguard h
    · obtain ⟨⟨e, rest'⟩, -, h⟩ := Option.bind_eq_some_iff.mp h
      exact hguard h

theorem inRange_of_number? (h : number? cs = some (d, rest)) : InRange d := by
  rw [number?, Option.orElse_eq_orElse, Option.orElse_eq_or, Option.orElse_eq_or,
    Option.or_eq_some_iff, Option.or_eq_some_iff] at h
  rcases h with h | ⟨-, h | ⟨-, h⟩⟩
  · obtain ⟨⟨text, rest'⟩, -, h⟩ := Option.map_eq_some_iff.mp h
    obtain ⟨rfl, -⟩ := Prod.mk.inj h
    refine .record fun f hf => ?_
    rw [List.mem_singleton.mp hf]
    exact .text _
  · rw [eq_of_fraction? h]
    exact .fraction
  · exact inRange_of_integer? h

theorem inRange_of_elements? {ds : List Data} (hread : ReadsInRange read?)
    (h : elements? read? fuel cs = some (ds, rest)) : ∀ d ∈ ds, InRange d := by
  induction fuel generalizing cs rest ds with
  | zero => cases h
  | succ fuel ih =>
      obtain ⟨cs', -, h⟩ := Option.bind_eq_some_iff.mp h
      split at h
      · obtain ⟨rfl, -⟩ := Prod.mk.inj (Option.some.inj h)
        exact fun d hd => absurd hd List.not_mem_nil
      · obtain ⟨⟨first, cs''⟩, hfirst, h⟩ := Option.bind_eq_some_iff.mp h
        obtain ⟨cs'', -, h⟩ := Option.bind_eq_some_iff.mp h
        split at h
        · obtain ⟨⟨others, rest'⟩, hothers, h⟩ := Option.bind_eq_some_iff.mp h
          obtain ⟨rfl, -⟩ := Prod.mk.inj (Option.some.inj h)
          exact List.forall_mem_cons.mpr ⟨hread _ _ _ hfirst, ih hothers⟩
        · obtain ⟨rfl, -⟩ := Prod.mk.inj (Option.some.inj h)
          exact List.forall_mem_cons.mpr
            ⟨hread _ _ _ hfirst, fun d hd => absurd hd List.not_mem_nil⟩
        · cases h

theorem inRange_of_assignment? {a : List String × Data} (hread : ReadsInRange read?)
    (h : assignment? read? cs = some (a, rest)) : InRange a.2 := by
  obtain ⟨⟨key, cs'⟩, -, h⟩ := Option.bind_eq_some_iff.mp h
  obtain ⟨cs'', -, h⟩ := Option.bind_eq_some_iff.mp h
  obtain ⟨⟨value, rest'⟩, hvalue, h⟩ := Option.bind_eq_some_iff.mp h
  obtain ⟨rfl, -⟩ := Prod.mk.inj (Option.some.inj h)
  exact hread _ _ _ hvalue

theorem inRange_of_members? {values : List (List String × Data)} (hread : ReadsInRange read?)
    (h : members? read? fuel cs = some (values, rest)) : ∀ v ∈ values, InRange v.2 := by
  induction fuel generalizing cs rest values with
  | zero => cases h
  | succ fuel ih =>
      obtain ⟨⟨first, cs'⟩, hfirst, h⟩ := Option.bind_eq_some_iff.mp h
      dsimp only at h
      split at h
      · obtain ⟨⟨others, rest'⟩, hothers, h⟩ := Option.bind_eq_some_iff.mp h
        obtain ⟨rfl, -⟩ := Prod.mk.inj (Option.some.inj h)
        exact List.forall_mem_cons.mpr ⟨inRange_of_assignment? hread hfirst, ih hothers⟩
      · obtain ⟨rfl, -⟩ := Prod.mk.inj (Option.some.inj h)
        exact List.forall_mem_cons.mpr
          ⟨inRange_of_assignment? hread hfirst, fun v hv => absurd hv List.not_mem_nil⟩
      · cases h

/-! ## Tables -/

theorem fieldsOf_eq_map (es : Entries) : fieldsOf es = es.map fun e => (e.1, e.2.toData) := by
  induction es with
  | nil => rfl
  | cons e es ih => rw [fieldsOf, ih, List.map_cons]

theorem recordsOf_eq_map (tables : List Entries) :
    recordsOf tables = tables.map fun es => .record (fieldsOf es) := by
  induction tables with
  | nil => rfl
  | cons es tables ih => rw [recordsOf, ih, List.map_cons]

def Entries.InRange (es : Entries) : Prop := ∀ e ∈ es, Toml.InRange e.2.toData

theorem inRange_record {es : Entries} (h : es.InRange) : InRange (.record (fieldsOf es)) := by
  refine .record fun f hf => ?_
  rw [fieldsOf_eq_map] at hf
  obtain ⟨e, he, rfl⟩ := List.mem_map.mp hf
  exact h e he

theorem entriesInRange {es : Entries} (h : InRange (.record (fieldsOf es))) : es.InRange := by
  intro e he
  cases h with
  | record hfields =>
      rw [fieldsOf_eq_map] at hfields
      exact hfields _ (List.mem_map_of_mem he)

theorem inRange_tables {closed : List Entries} {last : Entries}
    (hclosed : ∀ es ∈ closed, es.InRange) (hlast : last.InRange) :
    InRange (Item.tables closed last).toData := by
  refine .list fun d hd => ?_
  rw [recordsOf_eq_map, List.mem_append, List.mem_map, List.mem_singleton] at hd
  rcases hd with ⟨es, hes, rfl⟩ | rfl
  · exact inRange_record (hclosed es hes)
  · exact inRange_record hlast

theorem of_inRange_tables {closed : List Entries} {last : Entries}
    (h : InRange (Item.tables closed last).toData) :
    (∀ es ∈ closed, es.InRange) ∧ last.InRange := by
  rw [Item.toData] at h
  cases h with
  | list hitems =>
      rw [recordsOf_eq_map] at hitems
      refine ⟨fun es hes => ?_, ?_⟩
      · exact entriesInRange (hitems _ (List.mem_append_left _ (List.mem_map_of_mem hes)))
      · exact entriesInRange (hitems _ (List.mem_append_right _ (List.mem_singleton_self _)))

namespace Entries

variable {es es' : Entries} {key : String} {item : Item} {value : Data} {path : List String}

theorem InRange.nil : Entries.InRange [] := fun _ he => absurd he List.not_mem_nil

theorem InRange.lookup (h : es.InRange) (hitem : es.lookup key = some item) :
    Toml.InRange item.toData := by
  obtain ⟨before, after, rfl, -⟩ := List.lookup_eq_some_iff.mp hitem
  exact h (key, item) (List.mem_append_right _ List.mem_cons_self)

theorem InRange.put (h : es.InRange) (hitem : Toml.InRange item.toData) :
    (es.put key item).InRange := by
  induction es with
  | nil =>
      intro e he
      rw [List.mem_singleton.mp he]
      exact hitem
  | cons e es ih =>
      obtain ⟨hfirst, hrest⟩ := List.forall_mem_cons.mp h
      rw [Entries.put]
      split
      · exact List.forall_mem_cons.mpr ⟨hitem, hrest⟩
      · exact List.forall_mem_cons.mpr ⟨hfirst, ih hrest⟩

theorem InRange.assign (hes : es.InRange) (hvalue : Toml.InRange value)
    (h : es.assign value path = some es') : es'.InRange := by
  induction path generalizing es es' with
  | nil => cases h
  | cons key path ih =>
      cases path with
      | nil =>
          obtain ⟨-, h⟩ := Option.ite_none_left_eq_some.mp h
          obtain rfl := Option.some.inj h
          intro e he
          rcases List.mem_append.mp he with he | he
          · exact hes e he
          · rw [List.mem_singleton.mp he]
            exact hvalue
      | cons next path =>
          rw [Entries.assign] at h
          split at h
          · obtain ⟨sub, hsub, rfl⟩ := Option.map_eq_some_iff.mp h
            exact hes.put (inRange_record (ih .nil hsub))
          · next origin sub hlookup =>
            obtain ⟨-, h⟩ := Option.ite_none_left_eq_some.mp h
            obtain ⟨sub', hsub, rfl⟩ := Option.map_eq_some_iff.mp h
            exact hes.put (inRange_record (ih (entriesInRange (hes.lookup hlookup)) hsub))
          · next closed last hlookup =>
            obtain ⟨-, h⟩ := Option.ite_none_left_eq_some.mp h
            obtain ⟨last', hlast, rfl⟩ := Option.map_eq_some_iff.mp h
            obtain ⟨hclosed, hopen⟩ := of_inRange_tables (hes.lookup hlookup)
            exact hes.put (inRange_tables hclosed (ih hopen hlast))
          · cases h

theorem InRange.assignAll {values : List (List String × Data)} (hes : es.InRange)
    (hvalues : ∀ v ∈ values, Toml.InRange v.2) (h : es.assignAll values = some es') :
    es'.InRange := by
  induction values generalizing es with
  | nil =>
      obtain rfl := Option.some.inj h
      exact hes
  | cons v values ih =>
      obtain ⟨hfirst, hrest⟩ := List.forall_mem_cons.mp hvalues
      rw [Entries.assignAll, List.foldlM_cons] at h
      obtain ⟨es'', hassign, h⟩ := Option.bind_eq_some_iff.mp h
      exact ih (hes.assign hfirst hassign) hrest h

/-- What a change does to one item, it does below a path. -/
theorem InRange.alter {change : Option Item → Option Item} (hes : es.InRange)
    (hchange : ∀ before item, (∀ i ∈ before, Toml.InRange i.toData) → change before = some item →
      Toml.InRange item.toData)
    (h : es.alter change path = some es') : es'.InRange := by
  induction path generalizing es es' with
  | nil => cases h
  | cons key path ih =>
      cases path with
      | nil =>
          obtain ⟨item, hitem, rfl⟩ := Option.map_eq_some_iff.mp h
          exact hes.put (hchange _ item (fun i hi => hes.lookup hi) hitem)
      | cons next path =>
          rw [Entries.alter] at h
          split at h
          · obtain ⟨sub, hsub, rfl⟩ := Option.map_eq_some_iff.mp h
            exact hes.put (inRange_record (ih .nil hsub))
          · next origin sub hlookup =>
            obtain ⟨sub', hsub, rfl⟩ := Option.map_eq_some_iff.mp h
            exact hes.put (inRange_record (ih (entriesInRange (hes.lookup hlookup)) hsub))
          · next closed last hlookup =>
            obtain ⟨last', hlast, rfl⟩ := Option.map_eq_some_iff.mp h
            obtain ⟨hclosed, hopen⟩ := of_inRange_tables (hes.lookup hlookup)
            exact hes.put (inRange_tables hclosed (ih hopen hlast))
          · cases h

end Entries

/-- A section adds nothing else, whatever was there before. -/
theorem inRange_item {s : Section} {before : Option Item} {item : Item}
    (hvalues : ∀ v ∈ s.values, InRange v.2) (hbefore : ∀ i ∈ before, InRange i.toData)
    (h : s.item before = some item) : InRange item.toData := by
  have hnil : Entries.InRange [] := .nil
  unfold Section.item at h
  split at h
  · split at h
    · obtain ⟨es, hes, rfl⟩ := Option.map_eq_some_iff.mp h
      exact inRange_tables (fun es hes => absurd hes List.not_mem_nil) (hnil.assignAll hvalues hes)
    · obtain ⟨es, hes, rfl⟩ := Option.map_eq_some_iff.mp h
      obtain ⟨hclosed, hlast⟩ := of_inRange_tables (hbefore _ rfl)
      refine inRange_tables (fun table htable => ?_) (hnil.assignAll hvalues hes)
      rcases List.mem_append.mp htable with htable | htable
      · exact hclosed table htable
      · rw [List.mem_singleton.mp htable]
        exact hlast
    · cases h
  · split at h
    · obtain ⟨es, hes, rfl⟩ := Option.map_eq_some_iff.mp h
      exact inRange_record (hnil.assignAll hvalues hes)
    · obtain ⟨es, hes, rfl⟩ := Option.map_eq_some_iff.mp h
      exact inRange_record ((entriesInRange (hbefore _ rfl)).assignAll hvalues hes)
    · cases h

/-- **Sections**, one after another. -/
theorem inRange_of_sections {sections : List Section} {es es' : Entries} (hes : es.InRange)
    (hsections : ∀ s ∈ sections, ∀ v ∈ s.values, InRange v.2)
    (h : sections.foldlM (fun es s => Entries.alter s.item s.path es) es = some es') :
    es'.InRange := by
  induction sections generalizing es with
  | nil =>
      obtain rfl := Option.some.inj h
      exact hes
  | cons s sections ih =>
      obtain ⟨hfirst, hrest⟩ := List.forall_mem_cons.mp hsections
      rw [List.foldlM_cons] at h
      obtain ⟨es'', hitem, h⟩ := Option.bind_eq_some_iff.mp h
      exact ih (hes.alter (fun before item => inRange_item hfirst) hitem) hrest h

theorem inRange_of_dataOf? {values : List (List String × Data)} {sections : List Section}
    (hvalues : ∀ v ∈ values, InRange v.2)
    (hsections : ∀ s ∈ sections, ∀ v ∈ s.values, InRange v.2)
    (h : dataOf? values sections = some d) : InRange d := by
  obtain ⟨start, hstart, h⟩ := Option.bind_eq_some_iff.mp h
  obtain ⟨root, hroot, h⟩ := Option.bind_eq_some_iff.mp h
  obtain rfl := Option.some.inj h
  exact inRange_record
    (inRange_of_sections (Entries.InRange.nil.assignAll hvalues hstart) hsections hroot)

theorem inRange_of_inlineTable? (hread : ReadsInRange read?)
    (h : inlineTable? read? cs = some (d, rest)) : InRange d := by
  unfold inlineTable? at h
  split at h
  · obtain ⟨rfl, -⟩ := Prod.mk.inj (Option.some.inj h)
    exact .record fun f hf => absurd hf List.not_mem_nil
  · obtain ⟨⟨values, rest'⟩, hvalues, h⟩ := Option.bind_eq_some_iff.mp h
    obtain ⟨d', hd', h⟩ := Option.bind_eq_some_iff.mp h
    obtain ⟨rfl, -⟩ := Prod.mk.inj (Option.some.inj h)
    exact inRange_of_dataOf? (inRange_of_members? hread hvalues)
      (fun s hs => absurd hs List.not_mem_nil) hd'

/-! ## Documents -/

/-- **Values**, however they nest. -/
theorem readsInRange_value? (n : Nat) : ReadsInRange (value? n) := by
  induction n with
  | zero => exact fun cs d rest h => nomatch h
  | succ n ih =>
      intro cs d rest h
      unfold value? at h
      split at h
      · obtain ⟨-, h⟩ := Option.ite_none_left_eq_some.mp h
        obtain ⟨⟨ds, rest'⟩, hitems, h⟩ := Option.map_eq_some_iff.mp h
        obtain ⟨rfl, -⟩ := Prod.mk.inj h
        exact .list (inRange_of_elements? ih hitems)
      · obtain ⟨-, h⟩ := Option.ite_none_left_eq_some.mp h
        exact inRange_of_inlineTable? ih h
      · obtain ⟨rfl, -⟩ := Prod.mk.inj (Option.some.inj h)
        exact .boolean true
      · obtain ⟨rfl, -⟩ := Prod.mk.inj (Option.some.inj h)
        exact .boolean false
      · rw [Option.orElse_eq_orElse, Option.orElse_eq_or, Option.or_eq_some_iff] at h
        rcases h with h | ⟨-, h⟩
        · obtain ⟨⟨text, rest'⟩, -, h⟩ := Option.map_eq_some_iff.mp h
          obtain ⟨rfl, -⟩ := Prod.mk.inj h
          exact .text text
        · exact inRange_of_number? h

def Statement.InRange : Statement → Prop
  | .assign _ value => Toml.InRange value
  | .header _ _ => True

theorem inRange_of_statement? {s : Statement} (h : statement? cs = some (s, rest)) :
    s.InRange := by
  unfold statement? at h
  split at h
  · obtain ⟨⟨path, cs'⟩, -, h⟩ := Option.bind_eq_some_iff.mp h
    obtain ⟨cs'', -, h⟩ := Option.bind_eq_some_iff.mp h
    obtain ⟨rest', -, h⟩ := Option.bind_eq_some_iff.mp h
    obtain ⟨rfl, -⟩ := Prod.mk.inj (Option.some.inj h)
    trivial
  · obtain ⟨⟨path, cs'⟩, -, h⟩ := Option.bind_eq_some_iff.mp h
    obtain ⟨rest', -, h⟩ := Option.bind_eq_some_iff.mp h
    obtain ⟨rfl, -⟩ := Prod.mk.inj (Option.some.inj h)
    trivial
  · obtain ⟨⟨⟨key, value⟩, rest'⟩, hassign, h⟩ := Option.bind_eq_some_iff.mp h
    obtain ⟨rfl, -⟩ := Prod.mk.inj (Option.some.inj h)
    exact inRange_of_assignment? (readsInRange_value? depthLimit) hassign

theorem inRange_of_statements? {statements : List Statement}
    (h : statements? fuel cs = some statements) : ∀ s ∈ statements, s.InRange := by
  induction fuel generalizing cs statements with
  | zero => cases h
  | succ fuel ih =>
      obtain ⟨cs', -, h⟩ := Option.bind_eq_some_iff.mp h
      split at h
      · obtain rfl := Option.some.inj h
        exact fun s hs => absurd hs List.not_mem_nil
      · obtain ⟨⟨first, cs''⟩, hfirst, h⟩ := Option.bind_eq_some_iff.mp h
        obtain ⟨rest', -, h⟩ := Option.bind_eq_some_iff.mp h
        obtain ⟨others, hothers, h⟩ := Option.bind_eq_some_iff.mp h
        obtain rfl := Option.some.inj h
        exact List.forall_mem_cons.mpr ⟨inRange_of_statement? hfirst, ih hothers⟩

theorem inRange_sectionsOf {statements : List Statement} (h : ∀ s ∈ statements, s.InRange) :
    (∀ v ∈ (sectionsOf statements).1, InRange v.2) ∧
      ∀ s ∈ (sectionsOf statements).2, ∀ v ∈ s.values, InRange v.2 := by
  induction statements with
  | nil =>
      exact ⟨fun v hv => absurd hv List.not_mem_nil, fun s hs => absurd hs List.not_mem_nil⟩
  | cons s statements ih =>
      obtain ⟨hfirst, hrest⟩ := List.forall_mem_cons.mp h
      obtain ⟨hvalues, hsections⟩ := ih hrest
      cases s with
      | assign key value =>
          exact ⟨List.forall_mem_cons.mpr ⟨hfirst, hvalues⟩, hsections⟩
      | header inArray path =>
          exact ⟨fun v hv => absurd hv List.not_mem_nil,
            List.forall_mem_cons.mpr ⟨hvalues, hsections⟩⟩

/-- **All integers in a document** fit 64 bits with a sign. -/
theorem inRange_of_read? {text : String} (h : Toml.read? text = some d) : InRange d := by
  obtain ⟨statements, hstatements, h⟩ := Option.bind_eq_some_iff.mp h
  obtain ⟨hvalues, hsections⟩ := inRange_sectionsOf (inRange_of_statements? hstatements)
  exact inRange_of_dataOf? hvalues hsections h

end SourceEdit.Toml
