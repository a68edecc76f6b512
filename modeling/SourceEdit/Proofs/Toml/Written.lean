import SourceEdit.Proofs.Toml.Literal

/-!
# Written TOML

Data as a document: a line for each field of a record, with lists and records in one line as values.
What is written is read back as it was, if its integers fit 64 bits, the names in each record are
distinct and nothing nests too deep.
-/

namespace SourceEdit.Toml

open Text
open Data.Format (Starts EndsValue endsValue_cons write writeItems writeFields quoted_append
  starts_quoted starts_write starts_writeItems starts_writeFields length_le_writeItems
  length_le_writeFields)

/-- Whether data can be written as a value, nested at most so deep. -/
def Fits : Nat → Data → Prop
  | 0, _ => False
  | _ + 1, .null => False
  | _ + 1, .fraction => False
  | _ + 1, .integer value => inRange? value = some (.integer value)
  | n + 1, .list items => n ≠ 0 ∧ ∀ d ∈ items, Fits n d
  | n + 1, .record fields => n ≠ 0 ∧ (fields.map (·.1)).Nodup ∧ ∀ f ∈ fields, Fits n f.2
  | _ + 1, _ => True

variable {n fuel : Nat} {d : Data} {cs rest : List Char} {name : String}
  {read? : ValueReader} {ds : List Data} {fs : List (String × Data)}

/-! ## Between values -/

theorem skipBlanks_of_starts (h : Starts cs) (rest : List Char) :
    skipBlanks (cs ++ rest) = cs ++ rest := by
  refine h.dropWhile_append (fun c hc => ?_) rest
  simp only [isBlank, Bool.or_eq_true, beq_iff_eq] at hc
  rcases hc with rfl | rfl <;> decide

/-- A line end, a comment and a blank are not what a value starts with. -/
theorem skipAll?_of_starts (h : Starts cs) (rest : List Char) :
    skipAll? (cs ++ rest) = some (cs ++ rest) := by
  have hline : lineEnd? (cs ++ rest) = none := by
    rw [lineEnd?]
    · exact fun more => h.append_ne (by decide) rest more
    · exact fun more => h.append_ne (by decide) rest _
  rw [skipAll?, skipLines?, skipBlanks_of_starts h]
  split
  · next heq => exact absurd heq (h.append_ne (by decide) rest _)
  · rw [hline]

/-! ## Lists -/

abbrev ReadsBack (read? : ValueReader) (d : Data) : Prop := format.ReadsBack read? d

theorem elements?_write (hds : ∀ d ∈ ds, ReadsBack read? d) (hne : ds ≠ [])
    (hfuel : ds.length ≤ fuel) :
    elements? read? fuel (format.writeItems ds ++ ']' :: rest) = some (ds, rest) := by
  induction ds generalizing fuel with
  | nil => exact absurd rfl hne
  | cons d ds ih =>
      obtain ⟨fuel, rfl⟩ := Nat.exists_eq_add_of_le' (Nat.one_le_of_lt hfuel)
      obtain ⟨hstarts, hread⟩ := hds d List.mem_cons_self
      have hbracket : skipAll? (']' :: rest) = some (']' :: rest) := rfl
      have hcomma : ∀ cs, skipAll? (',' :: cs) = some (',' :: cs) := fun _ => rfl
      cases ds with
      | nil =>
          have hvalue := hread (']' :: rest) (endsValue_cons (by simp) _)
          rw [writeItems, elements?, skipAll?_of_starts hstarts, Option.bind_eq_bind,
            Option.bind_some]
          split
          · next heq => exact absurd heq (hstarts.append_ne (by decide) _ _)
          · simp only [hvalue, Option.bind_eq_bind, Option.bind_some, hbracket]
            rfl
      | cons e ds =>
          have hrest := ih (fun x hx => hds x (List.mem_cons_of_mem _ hx))
            (List.cons_ne_nil e ds) (Nat.le_of_succ_le_succ hfuel)
          have hvalue := fun rest => hread (',' :: rest) (endsValue_cons (by simp) _)
          rw [writeItems, List.append_assoc, List.cons_append, elements?,
            skipAll?_of_starts hstarts, Option.bind_eq_bind, Option.bind_some]
          split
          · next heq => exact absurd heq (hstarts.append_ne (by decide) _ _)
          · simp only [hvalue, Option.bind_eq_bind, Option.bind_some, hcomma, hrest]
            rfl

/-! ## Records -/

theorem key?_quoted (name : String) (cs : List Char) :
    key? (format.quoted name ++ format.mark :: cs) = some ([name], '=' :: cs) := by
  have hmark : skipBlanks (format.mark :: cs) = '=' :: cs := rfl
  show keyFrom? (78 + 1) _ = _
  rw [keyFrom?, skipBlanks_of_starts (starts_quoted format name), quoted_append, keyPart?,
    lineText_length]
  simp only [Option.map_some, Option.bind_eq_bind, Option.bind_some, hmark, String.ofList_toList]
  rfl

/-- A field is read as an assignment to its name. -/
theorem assignment?_write (h : ReadsBack read? d) (hrest : EndsValue rest) :
    assignment? read? (format.quoted name ++ format.mark :: (format.write d ++ rest)) =
      some (([name], d), rest) := by
  obtain ⟨hstarts, hread⟩ := h
  have hmark : ∀ cs, expect? '=' ('=' :: cs) = some cs := fun _ => rfl
  simp only [assignment?, key?_quoted, Option.bind_eq_bind, Option.bind_some, hmark,
    skipBlanks_of_starts hstarts, hread rest hrest]
  rfl

def assignments (fs : List (String × Data)) : List (List String × Data) :=
  fs.map fun f => ([f.1], f.2)

theorem members?_write (hfs : ∀ f ∈ fs, ReadsBack read? f.2) (hne : fs ≠ [])
    (hfuel : fs.length ≤ fuel) :
    members? read? fuel (format.writeFields fs ++ '\x7d' :: rest) =
      some (assignments fs, rest) := by
  induction fs generalizing fuel with
  | nil => exact absurd rfl hne
  | cons f fs ih =>
      obtain ⟨name, d⟩ := f
      obtain ⟨fuel, rfl⟩ := Nat.exists_eq_add_of_le' (Nat.one_le_of_lt hfuel)
      have hfirst : ReadsBack read? d := hfs (name, d) List.mem_cons_self
      cases fs with
      | nil =>
          have hbrace : skipBlanks ('\x7d' :: rest) = '\x7d' :: rest := rfl
          rw [writeFields, List.append_assoc, List.cons_append, members?,
            assignment?_write hfirst (endsValue_cons (by simp) _)]
          simp only [Option.bind_eq_bind, Option.bind_some, hbrace]
          rfl
      | cons g fs =>
          have hrest := ih (fun x hx => hfs x (List.mem_cons_of_mem _ hx))
            (List.cons_ne_nil g fs) (Nat.le_of_succ_le_succ hfuel)
          have hcomma : ∀ cs, skipBlanks (',' :: cs) = ',' :: cs := fun _ => rfl
          rw [writeFields, List.append_assoc, List.cons_append, List.append_assoc,
            List.cons_append, members?, assignment?_write hfirst (endsValue_cons (by simp) _)]
          simp only [Option.bind_eq_bind, Option.bind_some, hcomma, hrest]
          rfl

/-- Distinct names are assigned one after another. -/
theorem assignAll_assignments {es : Entries}
    (hnames : (es.map (·.1) ++ fs.map (·.1)).Nodup) :
    es.assignAll (assignments fs) = some (es ++ fs.map fun f => (f.1, .value f.2)) := by
  induction fs generalizing es with
  | nil =>
      rw [List.map_nil, List.append_nil]
      rfl
  | cons f fs ih =>
      have hnew : es.lookup f.1 = none := by
        rw [List.lookup_eq_none_iff]
        intro e he
        rw [List.nodup_append] at hnames
        have hne := hnames.2.2 e.1 (List.mem_map_of_mem he) f.1 List.mem_cons_self
        exact bne_iff_ne.mpr hne.symm
      have hfirst : es.assign f.2 [f.1] = some (es ++ [(f.1, .value f.2)]) := by
        rw [Entries.assign, hnew]
        rfl
      have hrest : ((es ++ [(f.1, Item.value f.2)]).map (·.1) ++ fs.map (·.1)).Nodup := by
        rwa [List.map_append, List.append_assoc]
      have hall := ih hrest
      rw [List.append_assoc] at hall
      show ((es.assign f.2 [f.1]).bind fun es => Entries.assignAll es (assignments fs)) = _
      rw [hfirst, Option.bind_some, hall]
      rfl

theorem fieldsOf_values (fs : List (String × Data)) :
    fieldsOf (fs.map fun f => (f.1, .value f.2)) = fs := by
  induction fs with
  | nil => rfl
  | cons f fs ih => rw [List.map_cons, fieldsOf, ih, Item.toData]

/-- **Assignments to distinct names** make up the record that has them as its fields. -/
theorem dataOf?_assignments (hnames : (fs.map (·.1)).Nodup) :
    dataOf? (assignments fs) [] = some (.record fs) := by
  have hall : Entries.assignAll [] (assignments fs) = _ := assignAll_assignments hnames
  rw [dataOf?, hall]
  simp only [List.nil_append, Option.bind_eq_bind, Option.bind_some, List.foldlM_nil,
    Option.pure_def, fieldsOf_values]

/-! ## Values -/

/-- A list that is not empty is what its elements are. -/
theorem value?_bracket (cs : List Char) :
    value? (n + 2) ('[' :: cs) =
      (elements? (value? (n + 1)) (cs.length + 1) cs).map fun (vs, rest) => (.list vs, rest) := by
  rw [value?, if_neg (Nat.succ_ne_zero n)]

theorem value?_brace {body : List Char} (h : Starts body) (rest : List Char) :
    value? (n + 2) ('\x7b' :: (body ++ rest)) =
      (members? (value? (n + 1)) (body ++ rest).length (body ++ rest)).bind fun (values, rest) =>
        (dataOf? values []).map fun d => (d, rest) := by
  rw [value?, if_neg (Nat.succ_ne_zero n), inlineTable?, skipBlanks_of_starts h]
  split
  · next heq => exact absurd heq (h.append_ne (by decide) _ _)
  · simp only [Option.bind_eq_bind, Option.map_eq_bind]
    rfl

/-- What starts as neither a list, a record nor a truth value is a text or a number. -/
theorem value?_cons {c : Char} (hc : c ∉ ['[', '\x7b', 't', 'f']) (cs : List Char) :
    value? (n + 1) (c :: cs) =
      ((text? (c :: cs)).map fun (t, rest) => (.text t, rest)).or (number? (c :: cs)) := by
  have hne : ∀ x more more', x ∈ ['[', '\x7b', 't', 'f'] → c :: more ≠ x :: more' := by
    intro x more more' hx heq
    exact hc ((List.cons.inj heq).1 ▸ hx)
  rw [value?.eq_6, Option.orElse_eq_orElse, Option.orElse_eq_or]
  all_goals exact fun more => hne _ _ _ (by decide)

theorem value?_quoted (name : String) (hrest : EndsValue rest) :
    value? (n + 1) (format.quoted name ++ rest) = some (.text name, rest) := by
  have htext := text?_quoted name hrest
  rw [quoted_append] at htext ⊢
  rw [value?_cons (by decide), htext]
  rfl

theorem value?_toString {value : Int} (hrange : inRange? value = some (.integer value))
    (hrest : EndsValue rest) :
    value? (n + 1) ((toString value).toList ++ rest) = some (.integer value, rest) := by
  have hnumber := number?_toString hrange hrest
  obtain ⟨c, more, heq, hc⟩ := head?_toString value
  rw [heq, List.cons_append] at hnumber ⊢
  have htext : text? (c :: (more ++ rest)) = none := by
    have hquotes : c ∉ ['"', '\''] := notMem_of_startsInteger hc (by decide)
    simp only [List.mem_cons, List.not_mem_nil, or_false, not_or] at hquotes
    rw [text?]
    all_goals
      intro cs h
      first
        | exact hquotes.1 (List.cons.inj h).1
        | exact hquotes.2 (List.cons.inj h).1
  have hbrackets : c ∉ ['[', '\x7b', 't', 'f'] := notMem_of_startsInteger hc (by decide)
  rw [value?_cons hbrackets, htext, hnumber]
  rfl

theorem Fits.ne_fraction (h : Fits n d) : d ≠ .fraction := by
  rintro rfl
  cases n <;> exact h

/-- **What is written is read back**, whatever follows. -/
theorem readsBack_write (h : Fits n d) : ReadsBack (value? n) d := by
  -- by induction on how deep the data may nest, one case for each kind of data
  induction n generalizing d with
  | zero => exact h.elim
  | succ n ih =>
      refine ⟨starts_write h.ne_fraction, fun rest hrest => ?_⟩
      cases d with
      | null => exact h.elim
      | boolean b => cases b <;> rfl
      | integer value => exact value?_toString h hrest
      | fraction => exact h.elim
      | text value => exact value?_quoted value hrest
      | list items =>
          obtain ⟨hn, hfits⟩ := h
          obtain ⟨n, rfl⟩ := Nat.exists_eq_succ_of_ne_zero hn
          have hitems : ∀ d ∈ items, ReadsBack (value? (n + 1)) d := fun d hd => ih (hfits d hd)
          have hlength := length_le_writeItems format items
          rw [write, List.cons_append, List.append_assoc, List.singleton_append, value?_bracket]
          cases items with
          | nil => rfl
          | cons d ds =>
              rw [elements?_write hitems (List.cons_ne_nil d ds)]
              · rfl
              · simp only [List.length_append, List.length_cons] at hlength ⊢
                omega
      | record fields =>
          obtain ⟨hn, hnames, hfits⟩ := h
          obtain ⟨n, rfl⟩ := Nat.exists_eq_succ_of_ne_zero hn
          have hfields : ∀ f ∈ fields, ReadsBack (value? (n + 1)) f.2 :=
            fun f hf => ih (hfits f hf)
          have hlength := length_le_writeFields format fields
          rw [write, List.cons_append, List.append_assoc, List.singleton_append]
          cases fields with
          | nil => rfl
          | cons f fs =>
              have hne : f :: fs ≠ [] := List.cons_ne_nil f fs
              have hdata := dataOf?_assignments hnames
              rw [value?_brace (starts_writeFields hne), members?_write hfields hne]
              · simp only [Option.bind_some, hdata]
                rfl
              · simp only [List.length_append, List.length_cons] at hlength ⊢
                omega

/-! ## Documents -/

def document : List (String × Data) → List Char
  | [] => []
  | (name, d) :: fs =>
    format.quoted name ++ format.mark :: (format.write d ++ '\n' :: document fs)

theorem statement?_write (h : Fits depthLimit d) (hrest : EndsValue rest) :
    statement? (format.quoted name ++ format.mark :: (format.write d ++ rest)) =
      some (.assign [name] d, rest) := by
  have hassign : assignment? (value? depthLimit)
      (format.quoted name ++ format.mark :: (format.write d ++ rest)) = some (([name], d), rest) :=
    assignment?_write (readsBack_write h) hrest
  rw [quoted_append] at hassign ⊢
  rw [statement?, hassign]
  · rfl
  · exact fun cs h => nomatch (List.cons.inj h).1
  · exact fun cs h => nomatch (List.cons.inj h).1

theorem finishLine?_newline (cs : List Char) : finishLine? ('\n' :: cs) = some cs := rfl

/-- **Run.** Each line is read as an assignment. -/
theorem statements?_document (hfs : ∀ f ∈ fs, Fits depthLimit f.2) (hfuel : fs.length < fuel) :
    statements? fuel (document fs) = some (fs.map fun f => .assign [f.1] f.2) := by
  induction fs generalizing fuel with
  | nil =>
      obtain ⟨fuel, rfl⟩ := Nat.exists_eq_add_of_le' (Nat.one_le_of_lt hfuel)
      rfl
  | cons f fs ih =>
      obtain ⟨name, d⟩ := f
      obtain ⟨fuel, rfl⟩ := Nat.exists_eq_add_of_le' (Nat.one_le_of_lt hfuel)
      have hrest := ih (fun f hf => hfs f (List.mem_cons_of_mem _ hf))
        (Nat.lt_of_succ_lt_succ hfuel)
      have hline : statement? (document ((name, d) :: fs)) =
          some (.assign [name] d, '\n' :: document fs) :=
        statement?_write (hfs (name, d) List.mem_cons_self) (endsValue_cons (by simp) _)
      have hskip : skipAll? (document ((name, d) :: fs)) = some (document ((name, d) :: fs)) :=
        skipAll?_of_starts (starts_quoted format name) _
      rw [statements?, hskip, Option.bind_eq_bind, Option.bind_some]
      split
      · next h => cases h
      · simp only [hline, Option.bind_eq_bind, Option.bind_some, finishLine?_newline, hrest]
        rfl

theorem sectionsOf_assign (fs : List (String × Data)) :
    sectionsOf (fs.map fun f => .assign [f.1] f.2) = (assignments fs, []) := by
  induction fs with
  | nil => rfl
  | cons f fs ih =>
      rw [List.map_cons, sectionsOf, ih]
      rfl

theorem length_le_document (fs : List (String × Data)) : fs.length ≤ (document fs).length := by
  induction fs with
  | nil => exact Nat.le_refl 0
  | cons f fs ih =>
      simp only [document, List.length_append, List.length_cons]
      omega

/-- **A written document** is read as the record it was written for. -/
theorem read?_document (hnames : (fs.map (·.1)).Nodup) (hfs : ∀ f ∈ fs, Fits depthLimit f.2) :
    Toml.read? (String.ofList (document fs)) = some (.record fs) := by
  have hmark : (document fs).head? ≠ some '\uFEFF' := by
    cases fs with
    | nil => exact fun h => nomatch h
    | cons f fs => exact fun h => absurd (Option.some.inj h) (by decide)
  have hlength := length_le_document fs
  have hstatements := statements?_document hfs (Nat.lt_succ_of_le hlength)
  simp only [Toml.read?, String.toList_ofList, if_neg hmark, hstatements, Option.bind_eq_bind,
    Option.bind_some, sectionsOf_assign]
  exact dataOf?_assignments hnames

end SourceEdit.Toml
