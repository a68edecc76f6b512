import SourceEdit.Proofs.Yaml.Node.Readers

/-!
# Documents in front of a marker

The documents that end before a marker do not depend on what stands behind it: either one of them is
faulty, or all are read, no bracket is left open, and reading goes on behind the marker.
-/

namespace SourceEdit.Yaml

variable {α : Type}

theorem Sinks.nil : Sinks 0 [] := fun _ => Nat.le_refl _

theorem Sinks.depthAfter_eq_zero {ts us : List Token} (h : Sinks 0 ts) (hus : depthAfter 0 us = 0) :
    depthAfter 0 (ts ++ us) = 0 := by
  rw [depthAfter_append]
  have hle : depthAfter (depthAfter 0 ts) us ≤ depthAfter 0 us := depthAfter_mono (h 0) us
  omega

/-! ## Reading in front of a marker -/

/-- A reader of tokens in front of a marker fails, or reads the same, whatever is behind. -/
def ReadsBefore (f : List Token → Option (α × List Token)) (ts : List Token) : Prop :=
  (∀ behind, f (ts ++ .documentStart :: behind) = none) ∨
    ∃ a taken rest, ts = taken ++ rest ∧ Sinks 0 taken ∧
      ∀ behind, f (ts ++ .documentStart :: behind) = some (a, rest ++ .documentStart :: behind)

/-- A node of a whole document. -/
theorem node?_before (s : NodeState) :
    (∀ behind m, NodeState.node? true false m (s.before behind) = none) ∨
      ∃ (a : Node) (s' : NodeState) (taken : List Token), s.tokens = taken ++ s'.tokens ∧
        Sinks 0 taken ∧ ∀ behind m, 4 * s.tokens.length + 4 ≤ m →
          NodeState.node? true false m (s.before behind) = some (a, s'.before behind) := by
  by_cases h : ∃ behind n p, NodeState.node? true false n (s.before behind) = some p
  · obtain ⟨behind, n, ⟨a, r⟩, hread⟩ := h
    obtain ⟨s', taken, _, htaken, hsinks, hall⟩ :=
      (NodeState.allLocal n).node true false s behind a r hread
    refine Or.inr ⟨a, s', taken, htaken, hsinks, fun behind' m hm => hall behind' m ?_⟩
    rw [htaken, List.length_append] at hm
    omega
  · refine Or.inl fun behind m => Option.eq_none_iff_forall_ne_some.mpr fun p hp => ?_
    exact h ⟨behind, m, p, hp⟩

theorem afterDocument?_before (ts : List Token) :
    ReadsBefore (fun ts => (afterDocument? ts).map ((), ·)) ts := by
  cases ts with
  | nil => exact Or.inr ⟨(), [], [], rfl, Sinks.nil, fun _ => rfl⟩
  | cons t ts =>
      have hkept : (∀ behind, afterDocument? (t :: ts ++ .documentStart :: behind) =
          some (t :: ts ++ .documentStart :: behind)) →
          ReadsBefore (fun ts => (afterDocument? ts).map ((), ·)) (t :: ts) := fun h =>
        Or.inr ⟨(), [], t :: ts, rfl, Sinks.nil, fun behind =>
          congrArg (Option.map ((), ·)) (h behind)⟩
      cases t with
      | documentEnd =>
          exact Or.inr ⟨(), [.documentEnd], ts, rfl, fun n => Nat.le_refl n, fun _ => rfl⟩
      | unreadable => exact Or.inl fun _ => rfl
      | _ => exact hkept fun _ => rfl

theorem root?_before (handles : List (String × String)) (ts : List Token) :
    ReadsBefore (root? handles) ts := by
  have hread : ∀ behind, root? handles (ts ++ .documentStart :: behind) =
      (NodeState.node? true false (4 * (ts ++ .documentStart :: behind).length + 4)
        (({ tokens := ts, handles } : NodeState).before behind)).bind fun p =>
          (afterDocument? p.2.tokens).map (Document.ofRoot p.1, ·) := by
    intro behind
    rw [root?]
    show Option.bind _ _ = Option.bind _ _
    congr 1
    funext p
    show (afterDocument? p.2.tokens).bind _ = _
    cases afterDocument? p.2.tokens <;> rfl
  rcases node?_before { tokens := ts, handles } with hnone | ⟨a, s', taken, htaken, hsinks, hall⟩
  · exact Or.inl fun behind => by rw [hread, hnone]; rfl
  · have hnode : ∀ behind, root? handles (ts ++ .documentStart :: behind) =
        (afterDocument? (s'.tokens ++ .documentStart :: behind)).map (Document.ofRoot a, ·) := by
      intro behind
      have hfuel : 4 * ts.length + 4 ≤ 4 * (ts ++ Token.documentStart :: behind).length + 4 := by
        rw [List.length_append]
        omega
      rw [hread, hall behind _ hfuel]
      rfl
    rcases afterDocument?_before s'.tokens with hnone | ⟨_, ended, rest, hsplit, hended, hrest⟩
    · refine Or.inl fun behind => ?_
      rw [hnode, Option.map_eq_none_iff.mp (hnone behind)]
      rfl
    · refine Or.inr ⟨Document.ofRoot a, taken ++ ended, rest, ?_, hsinks.append hended,
        fun behind => ?_⟩
      · rw [List.append_assoc, ← hsplit]
        exact htaken
      · obtain ⟨_, hafter, hpair⟩ := Option.map_eq_some_iff.mp (hrest behind)
        rw [hnode, hafter, (Prod.mk.inj hpair).2]
        rfl

theorem markedRoot?_before (handles : List (String × String)) {ts : List Token}
    (hend : .streamEnd ∉ ts) : ReadsBefore (markedRoot? handles) ts := by
  have hmissing : (∀ behind, markedRoot? handles (ts ++ .documentStart :: behind) =
      (afterDocument? (ts ++ .documentStart :: behind)).map (Document.ofRoot .missing, ·)) →
      ReadsBefore (markedRoot? handles) ts := by
    intro h
    rcases afterDocument?_before ts with hnone | ⟨_, ended, rest, hsplit, hended, hrest⟩
    · refine Or.inl fun behind => ?_
      rw [h, Option.map_eq_none_iff.mp (hnone behind)]
      rfl
    · refine Or.inr ⟨Document.ofRoot .missing, ended, rest, hsplit, hended, fun behind => ?_⟩
      obtain ⟨_, hafter, hpair⟩ := Option.map_eq_some_iff.mp (hrest behind)
      rw [h, hafter, (Prod.mk.inj hpair).2]
      rfl
  have hroot : (∀ behind, markedRoot? handles (ts ++ .documentStart :: behind) =
      root? handles (ts ++ .documentStart :: behind)) → ReadsBefore (markedRoot? handles) ts := by
    intro h
    rcases root?_before handles ts with hnone | ⟨d, taken, rest, hsplit, hsinks, hrest⟩
    · exact Or.inl fun behind => by rw [h, hnone]
    · exact Or.inr ⟨d, taken, rest, hsplit, hsinks, fun behind => by rw [h, hrest]⟩
  cases ts with
  | nil => exact hmissing fun _ => rfl
  | cons t ts =>
      cases t with
      | streamEnd => exact absurd (List.mem_cons_self ..) hend
      | version _ _ => exact hmissing fun _ => rfl
      | tagDirective _ _ => exact hmissing fun _ => rfl
      | documentStart => exact hmissing fun _ => rfl
      | documentEnd => exact hmissing fun _ => rfl
      | _ => exact hroot fun _ => rfl

/-- Directives in front of a marker. -/
theorem directives?_before (d : Directives) (ts : List Token) :
    ReadsBefore (directives? d) ts := by
  induction ts generalizing d with
  | nil => exact Or.inr ⟨d, [], [], rfl, Sinks.nil, fun _ => rfl⟩
  | cons t ts ih =>
      have hkept : (∀ behind, directives? d (t :: ts ++ .documentStart :: behind) =
          some (d, t :: ts ++ .documentStart :: behind)) → ReadsBefore (directives? d) (t :: ts) :=
        fun h => Or.inr ⟨d, [], t :: ts, rfl, Sinks.nil, h⟩
      have htaken : ∀ d', (∀ behind, directives? d (t :: ts ++ .documentStart :: behind) =
          directives? d' (ts ++ .documentStart :: behind)) → (∀ n, depthStep n t = n) →
          ReadsBefore (directives? d) (t :: ts) := by
        intro d' h ht
        rcases ih d' with hnone | ⟨a, taken, rest, hsplit, hsinks, hrest⟩
        · exact Or.inl fun behind => by rw [h, hnone]
        · refine Or.inr ⟨a, t :: taken, rest, by rw [hsplit]; rfl,
            hsinks.cons fun n => Nat.le_of_eq (ht _), fun behind => by rw [h, hrest]⟩
      cases t with
      | version major minor =>
          by_cases hbad : (d.hasVersion || major != 1 || (minor != 1 && minor != 2)) = true
          · exact Or.inl fun behind => by rw [List.cons_append, directives?, if_pos hbad]
          · exact htaken { d with hasVersion := true }
              (fun behind => by rw [List.cons_append, directives?, if_neg hbad]) fun _ => rfl
      | tagDirective handle start =>
          by_cases hbad : (d.handles.any (·.1 == handle)) = true
          · exact Or.inl fun behind => by rw [List.cons_append, directives?, if_pos hbad]
          · exact htaken { d with handles := d.handles ++ [(handle, start)] }
              (fun behind => by rw [List.cons_append, directives?, if_neg hbad]) fun _ => rfl
      | _ => exact hkept fun _ => rfl

/-! ## All documents in front of a marker -/

def documentsBehind (handles : List (String × String)) (fuel : Nat) (ts : List Token) :
    List (Option Document) :=
  match markedRoot? handles ts with
  | some (d, rest) => some d :: documentsFrom false fuel rest
  | none => [none]

/-- What stands before the last marker is faulty, or is read with some budget of steps and leaves no
bracket open. -/
def BeforeMarker (first : Bool) (budget : Nat) (ts : List Token) : Prop :=
  (∃ ds, ∀ behind fuel, budget ≤ fuel →
    documentsFrom first fuel (ts ++ .documentStart :: behind) = ds ++ [none]) ∨
  ∃ ds handles, depthAfter 0 ts = 0 ∧ ∀ behind fuel, budget ≤ fuel →
    ∃ fuel', fuel ≤ fuel' + budget ∧
      documentsFrom first fuel (ts ++ .documentStart :: behind) =
        ds ++ documentsBehind handles fuel' behind

variable {first : Bool} {ts : List Token} {budget : Nat}

theorem BeforeMarker.mono {budget' : Nat} (h : BeforeMarker first budget ts)
    (hle : budget ≤ budget') : BeforeMarker first budget' ts := by
  rcases h with ⟨ds, hds⟩ | ⟨ds, handles, hdepth, hds⟩
  · exact Or.inl ⟨ds, fun behind fuel hf => hds behind fuel (by omega)⟩
  · refine Or.inr ⟨ds, handles, hdepth, fun behind fuel hf => ?_⟩
    obtain ⟨fuel', hfuel', heq⟩ := hds behind fuel (by omega)
    exact ⟨fuel', by omega, heq⟩

theorem BeforeMarker.of_fault
    (h : ∀ behind fuel, documentsFrom first (fuel + 1) (ts ++ .documentStart :: behind) = [none]) :
    BeforeMarker first (budget + 1) ts := by
  refine Or.inl ⟨[], fun behind fuel hf => ?_⟩
  obtain ⟨fuel, rfl⟩ := Nat.exists_eq_add_of_le' (by omega : 1 ≤ fuel)
  exact h behind fuel

/-- The last marker is reached. -/
theorem BeforeMarker.of_last (handles : List (String × String)) (hts : Sinks 0 ts)
    (h : ∀ behind fuel, documentsFrom first (fuel + 1) (ts ++ .documentStart :: behind) =
      documentsBehind handles fuel behind) : BeforeMarker first (budget + 1) ts := by
  refine Or.inr ⟨[], handles, Nat.le_zero.mp (hts 0), fun behind fuel hf => ?_⟩
  obtain ⟨fuel, rfl⟩ := Nat.exists_eq_add_of_le' (by omega : 1 ≤ fuel)
  exact ⟨fuel, by omega, h behind fuel⟩

/-- A document that is read before the last marker. -/
theorem BeforeMarker.of_read (taken : List Token) {rest : List Token} {d : Document}
    (hsplit : ts = taken ++ rest)
    (hsinks : Sinks 0 taken)
    (hread : ∀ behind fuel, documentsFrom first (fuel + 1) (ts ++ .documentStart :: behind) =
      some d :: documentsFrom false fuel (rest ++ .documentStart :: behind))
    (h : BeforeMarker false budget rest) : BeforeMarker first (budget + 1) ts := by
  rcases h with ⟨ds, hds⟩ | ⟨ds, handles, hdepth, hds⟩
  · refine Or.inl ⟨some d :: ds, fun behind fuel hf => ?_⟩
    obtain ⟨fuel, rfl⟩ := Nat.exists_eq_add_of_le' (by omega : 1 ≤ fuel)
    rw [hread, hds behind fuel (by omega)]
    rfl
  · refine Or.inr ⟨some d :: ds, handles, hsplit ▸ hsinks.depthAfter_eq_zero hdepth,
      fun behind fuel hf => ?_⟩
    obtain ⟨fuel, rfl⟩ := Nat.exists_eq_add_of_le' (by omega : 1 ≤ fuel)
    obtain ⟨fuel', hfuel', heq⟩ := hds behind fuel (by omega)
    refine ⟨fuel', by omega, ?_⟩
    rw [hread, heq]
    rfl

def proceed (fuel : Nat) (read : Option (Document × List Token)) : List (Option Document) :=
  match read with
  | some (d, rest) => some d :: documentsFrom false fuel rest
  | none => [none]

/-- Reading a document in front of the last marker, once its beginning has been read. -/
theorem BeforeMarker.of_proceed {f : List Token → Option (Document × List Token)}
    (taken rest : List Token) (hsplit : ts = taken ++ rest) (hsinks : Sinks 0 taken)
    (hf : ReadsBefore f rest)
    (hread : ∀ behind fuel, documentsFrom first (fuel + 1) (ts ++ .documentStart :: behind) =
      proceed fuel (f (rest ++ .documentStart :: behind)))
    (h : ∀ rest', rest'.length ≤ rest.length → (∀ t ∈ rest', t ∈ ts) →
      BeforeMarker false budget rest') : BeforeMarker first (budget + 1) ts := by
  rcases hf with hnone | ⟨d, taken', rest', hsplit', hsinks', hrest⟩
  · exact BeforeMarker.of_fault fun behind fuel => by rw [hread, hnone]; rfl
  · refine BeforeMarker.of_read (taken ++ taken') (d := d)
      (by rw [hsplit, hsplit', List.append_assoc]) (hsinks.append hsinks')
      (fun behind fuel => by rw [hread, hrest]; rfl) (h rest' ?_ ?_)
    · rw [hsplit', List.length_append]
      omega
    · intro t ht
      rw [hsplit, hsplit']
      simp [ht]

def directed (fuel : Nat) (ts : List Token) : List (Option Document) :=
  match directives? {} ts with
  | some (d, .documentStart :: rest) =>
    proceed fuel (markedRoot? (d.handles ++ defaultHandles) rest)
  | _ => [none]

theorem BeforeMarker.of_directed (ended : List Token) {rest : List Token}
    (hsplit : ts = ended ++ rest)
    (hended : Sinks 0 ended) (hend : .streamEnd ∉ ts)
    (hread : ∀ behind fuel, documentsFrom first (fuel + 1) (ts ++ .documentStart :: behind) =
      directed fuel (rest ++ .documentStart :: behind))
    (h : ∀ rest', rest'.length < rest.length → (∀ t ∈ rest', t ∈ ts) →
      BeforeMarker false budget rest') : BeforeMarker first (budget + 1) ts := by
  rcases directives?_before {} rest with hnone | ⟨d, taken, rest', hsplit', hsinks, hrest⟩
  · exact BeforeMarker.of_fault fun behind fuel => by rw [hread, directed, hnone]
  · have hall : Sinks 0 (ended ++ taken) := hended.append hsinks
    -- the directives end at the marker itself, at one before it, or at a token that may not follow
    cases rest' with
    | nil =>
        refine BeforeMarker.of_last (d.handles ++ defaultHandles) ?_ fun behind fuel => ?_
        · rw [hsplit, hsplit', List.append_nil]
          exact hall
        · rw [hread, directed, hrest]
          rfl
    | cons t more =>
        by_cases ht : t = .documentStart
        · subst ht
          refine BeforeMarker.of_proceed (f := markedRoot? (d.handles ++ defaultHandles))
            (ended ++ taken ++ [.documentStart]) more ?_
            (hall.append (show Sinks 0 [.documentStart] from fun n => Nat.le_refl n)) ?_
            (fun behind fuel => ?_) fun rest' hlength hmem => h rest' ?_ hmem
          · rw [hsplit, hsplit']
            simp
          · refine markedRoot?_before _ fun hm => hend ?_
            rw [hsplit, hsplit']
            simp [hm]
          · rw [hread, directed, hrest]
            rfl
          · rw [hsplit', List.length_append, List.length_cons]
            omega
        · refine BeforeMarker.of_fault fun behind fuel => ?_
          rw [hread, directed, hrest]
          cases t <;> first | rfl | exact absurd rfl ht

theorem dropWhile_before (ts behind : List Token) :
    (ts ++ .documentStart :: behind).dropWhile (· == .documentEnd) =
      ts.dropWhile (· == .documentEnd) ++ .documentStart :: behind := by
  induction ts with
  | nil => rfl
  | cons t ts ih =>
      by_cases ht : t = .documentEnd
      · simp [ht, ih]
      · simp [ht]

theorem sinks_documentEnds (ts : List Token) : Sinks 0 (ts.takeWhile (· == .documentEnd)) := by
  induction ts with
  | nil => exact Sinks.nil
  | cons t ts ih =>
      by_cases ht : t = .documentEnd
      · simp only [ht, List.takeWhile_cons, beq_self_eq_true, if_true]
        exact Sinks.cons (fun n => Nat.le_refl n) ih
      · simp only [List.takeWhile_cons, beq_iff_eq, ht, if_false]
        exact Sinks.nil

/-- One step of the reader between documents, where a marker stands behind the tokens. -/
theorem documentsFrom_between (ts behind : List Token) (fuel : Nat) :
    documentsFrom false (fuel + 1) (ts ++ .documentStart :: behind) =
      match (ts.dropWhile (· == .documentEnd) ++ .documentStart :: behind).headD .unreadable with
      | .streamEnd => []
      | .unreadable => [none]
      | .version .. | .tagDirective .. | .documentStart =>
        directed fuel (ts.dropWhile (· == .documentEnd) ++ .documentStart :: behind)
      | _ => [none] := by
  rw [← dropWhile_before]
  rfl

/-- One step of the reader at the start of the text, where a marker stands behind the tokens. -/
theorem documentsFrom_start (ts behind : List Token) (fuel : Nat) :
    documentsFrom true (fuel + 1) (ts ++ .documentStart :: behind) =
      match (ts ++ .documentStart :: behind).headD .unreadable with
      | .streamEnd => []
      | .unreadable => [none]
      | .version .. | .tagDirective .. | .documentStart =>
        directed fuel (ts ++ .documentStart :: behind)
      | _ => proceed fuel (root? defaultHandles (ts ++ .documentStart :: behind)) := rfl

/-- Between documents. -/
theorem beforeMarker_between (ts : List Token) (hend : .streamEnd ∉ ts) :
    BeforeMarker false (ts.length + 1) ts := by
  have hsplit : ts = ts.takeWhile (· == .documentEnd) ++ ts.dropWhile (· == .documentEnd) :=
    List.takeWhile_append_dropWhile.symm
  have hlength : (ts.dropWhile (· == .documentEnd)).length ≤ ts.length := by
    conv => rhs; rw [hsplit, List.length_append]
    omega
  have hread := documentsFrom_between ts
  -- a document takes tokens away, so that the recursion is on how many are left
  have hdirected : (∀ behind fuel, documentsFrom false (fuel + 1) (ts ++ .documentStart :: behind) =
      directed fuel (ts.dropWhile (· == .documentEnd) ++ .documentStart :: behind)) →
      BeforeMarker false (ts.length + 1) ts := by
    intro h
    refine BeforeMarker.of_directed _ hsplit (sinks_documentEnds ts) hend h fun rest' hlt hmem => ?_
    exact (beforeMarker_between rest' fun hm => hend (hmem _ hm)).mono (by omega)
  cases hrest : ts.dropWhile (· == .documentEnd) with
  | nil =>
      rw [hrest] at hread hdirected
      exact hdirected hread
  | cons t more =>
      rw [hrest] at hread hdirected
      have hmem : t ∈ ts := by
        rw [hsplit, hrest]
        simp
      cases t with
      | streamEnd => exact absurd hmem hend
      | version _ _ => exact hdirected hread
      | tagDirective _ _ => exact hdirected hread
      | documentStart => exact hdirected hread
      | _ => exact BeforeMarker.of_fault hread
termination_by ts.length
decreasing_by omega

/-- **In front of the last marker**, from the start of the text on. -/
theorem beforeMarker_start (ts : List Token) (hend : .streamEnd ∉ ts) :
    BeforeMarker true (ts.length + 2) ts := by
  have hread := documentsFrom_start ts
  have hnext : ∀ rest' : List Token, rest'.length ≤ ts.length → (∀ t ∈ rest', t ∈ ts) →
      BeforeMarker false (ts.length + 1) rest' := fun rest' hlength hmem =>
    (beforeMarker_between rest' fun hm => hend (hmem _ hm)).mono (by omega)
  have hdirected : (∀ behind fuel, documentsFrom true (fuel + 1) (ts ++ .documentStart :: behind) =
      directed fuel (ts ++ .documentStart :: behind)) → BeforeMarker true (ts.length + 2) ts :=
    fun h => BeforeMarker.of_directed [] rfl Sinks.nil hend h
      fun rest' hlt hmem => hnext rest' (by omega) hmem
  have hroot : (∀ behind fuel, documentsFrom true (fuel + 1) (ts ++ .documentStart :: behind) =
      proceed fuel (root? defaultHandles (ts ++ .documentStart :: behind))) →
      BeforeMarker true (ts.length + 2) ts :=
    fun h => BeforeMarker.of_proceed [] _ rfl Sinks.nil (root?_before _ _) h hnext
  cases ts with
  | nil => exact hdirected hread
  | cons t more =>
      cases t with
      | streamEnd => exact absurd (List.mem_cons_self ..) hend
      | unreadable => exact BeforeMarker.of_fault hread
      | version _ _ => exact hdirected hread
      | tagDirective _ _ => exact hdirected hread
      | documentStart => exact hdirected hread
      | _ => exact hroot hread

end SourceEdit.Yaml
