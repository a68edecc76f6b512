import SourceEdit.Proofs.Yaml.Marker.Documents
import SourceEdit.Proofs.Yaml.Written.Legible

/-!
# Chains of records read back as documents

The tokens of a record are one document: a mapping of its names to its texts, without anchors and
tags. So a chain of records behind the line of a marker continues any text by one document for each
record.
-/

namespace SourceEdit.Yaml

variable {ts : List Token} {names : List (String × Nat)} {handles : List (String × String)}
  {r : Record} {rs : List Record} {fuel : Nat}

/-! ## A record as a document -/

def recordEntries (r : Record) : List (Node × Node) :=
  r.map fun f => (.scalar {} .plain f.1, .scalar {} (styleFor f.2) f.2)

def recordDocument (r : Record) : Document := { root := some (.mapping {} (recordEntries r)) }

theorem anchorsOfEntries_recordEntries (r : Record) :
    Node.anchorsOfEntries (recordEntries r) = [] := by
  induction r with
  | nil => rfl
  | cons f r ih =>
      show Node.anchors (.scalar {} .plain f.1) ++ Node.anchors (.scalar {} (styleFor f.2) f.2) ++
        Node.anchorsOfEntries (recordEntries r) = []
      rw [ih]
      rfl

theorem ofRoot_recordEntries (r : Record) :
    Document.ofRoot (.mapping {} (recordEntries r)) = recordDocument r := by
  have hanchors : Node.anchors (.mapping {} (recordEntries r)) = [] :=
    anchorsOfEntries_recordEntries r
  rw [Document.ofRoot, hanchors]
  rfl

theorem entriesTokens_reverse (f : String × String) (inside : Bool) (r : Record) :
    (entriesTokens inside (f :: r)).reverse =
      (if inside then [] else [.blockMappingStart]) ++ .key :: .scalar .plain f.1 :: .value ::
        .scalar (styleFor f.2) f.2 :: (entriesTokens true r).reverse := by
  have hname : String.ofList f.1.toList = f.1 := String.ofList_toList
  rw [entriesTokens, List.reverse_append, entryTokens, nameTokens, hname]
  cases inside <;> rfl

/-- The tokens of entries are read as nodes, to the end of their block. -/
theorem blockEntries?_record (ts : List Token) (names : List (String × Nat))
    (handles : List (String × String)) (hfuel : r.length + 3 ≤ fuel) :
    NodeState.blockEntries? fuel
        ⟨(entriesTokens true r).reverse ++ .blockEnd :: ts, names, handles⟩ =
      some (recordEntries r, ⟨ts, names, handles⟩) := by
  induction r generalizing fuel with
  | nil =>
      obtain ⟨fuel, rfl⟩ : ∃ k, fuel = k + 1 := ⟨fuel - 1, by omega⟩
      rfl
  | cons f r ih =>
      rw [List.length_cons] at hfuel
      obtain ⟨fuel, rfl⟩ : ∃ k, fuel = k + 3 := ⟨fuel - 3, by omega⟩
      have hroom : r.length + 3 ≤ fuel + 2 := by omega
      have hrest := ih hroom
      rw [entriesTokens_reverse, if_pos rfl]
      show ((NodeState.blockEntries? (fuel + 2)
        ⟨(entriesTokens true r).reverse ++ .blockEnd :: ts, names, handles⟩).bind fun p =>
          some ((Node.scalar {} .plain f.1, Node.scalar {} (styleFor f.2) f.2) :: p.1, p.2)) = _
      rw [hrest]
      rfl

/-- A record, up to the end of its block. -/
theorem node?_record (ts : List Token) (names : List (String × Nat))
    (handles : List (String × String)) (hr : r ≠ []) (hfuel : r.length + 4 ≤ fuel) :
    NodeState.node? true false fuel
        ⟨(entriesTokens false r).reverse ++ .blockEnd :: ts, names, handles⟩ =
      some (.mapping {} (recordEntries r), ⟨ts, names, handles⟩) := by
  obtain ⟨f, r, rfl⟩ := List.exists_cons_of_ne_nil hr
  obtain ⟨fuel, rfl⟩ : ∃ k, fuel = k + 1 := ⟨fuel - 1, by omega⟩
  have hroom : (f :: r).length + 3 ≤ fuel := by omega
  have hentries := blockEntries?_record ts names handles hroom
  rw [entriesTokens_reverse, if_pos rfl, List.nil_append] at hentries
  rw [entriesTokens_reverse, if_neg Bool.false_ne_true]
  show ((NodeState.blockEntries? fuel ⟨.key :: .scalar .plain f.1 :: .value ::
    .scalar (styleFor f.2) f.2 :: (entriesTokens true r).reverse ++ .blockEnd :: ts, names,
      handles⟩).bind fun p => some (Node.mapping {} p.1, p.2)) = _
  rw [hentries]
  rfl

def Follows (ts : List Token) : Prop := ∃ ts', ts = .streamEnd :: ts' ∨ ts = .documentStart :: ts'

theorem length_le_recordTokens (r : Record) : r.length ≤ (recordTokens r).length := by
  have hentries : ∀ inside, r.length ≤ (entriesTokens inside r).length := by
    induction r with
    | nil => exact fun _ => Nat.le_refl _
    | cons f r ih =>
        intro inside
        have hrest := ih true
        rw [entriesTokens, entryTokens, List.length_append, List.length_cons, List.length_cons]
        omega
  have hle := hentries false
  rw [recordTokens, List.length_append, List.length_reverse]
  omega

theorem markedRoot?_record (hr : r ≠ []) (hts : Follows ts) :
    markedRoot? handles (recordTokens r ++ ts) = some (recordDocument r, ts) := by
  have hlength := length_le_recordTokens r
  have hfuel : r.length + 4 ≤ 4 * (recordTokens r ++ ts).length + 4 := by
    rw [List.length_append]
    omega
  have hafter : afterDocument? ((if EndsOpen r then [Token.documentEnd] else []) ++ ts) =
      some ts := by
    obtain ⟨ts', rfl | rfl⟩ := hts
    · split <;> rfl
    · split <;> rfl
  have hsplit : recordTokens r ++ ts = (entriesTokens false r).reverse ++ .blockEnd ::
      ((if EndsOpen r then [Token.documentEnd] else []) ++ ts) := by
    rw [recordTokens, List.append_assoc, List.cons_append]
  have hread : root? handles (recordTokens r ++ ts) = some (recordDocument r, ts) := by
    have hnode := node?_record ((if EndsOpen r then [Token.documentEnd] else []) ++ ts) [] handles
      hr hfuel
    rw [← hsplit] at hnode
    rw [root?, hnode]
    show (afterDocument? ((if EndsOpen r then [Token.documentEnd] else []) ++ ts)).bind _ = _
    rw [hafter, ofRoot_recordEntries]
    rfl
  have hhead : (recordTokens r ++ ts).headD .unreadable = .blockMappingStart := by
    obtain ⟨f, r, rfl⟩ := List.exists_cons_of_ne_nil hr
    rw [recordTokens, entriesTokens_reverse]
    rfl
  rw [markedRoot?, hhead]
  exact hread

/-! ## Chains -/

/-- The tokens of a chain are one document for each record. -/
theorem documentsBehind_chain (handles : List (String × String)) (hr : r ≠ [])
    (hrs : ∀ r' ∈ rs, r' ≠ [])
    (hfuel : rs.length + 1 ≤ fuel) : documentsBehind handles fuel (chainTokens r rs) =
      (r :: rs).map fun r => some (recordDocument r) := by
  induction rs generalizing r handles fuel with
  | nil =>
      obtain ⟨fuel, rfl⟩ : ∃ k, fuel = k + 1 := ⟨fuel - 1, by omega⟩
      rw [documentsBehind, chainTokens, markedRoot?_record hr ⟨[], Or.inl rfl⟩]
      rfl
  | cons r' rs ih =>
      rw [List.length_cons] at hfuel
      obtain ⟨fuel, rfl⟩ : ∃ k, fuel = k + 1 := ⟨fuel - 1, by omega⟩
      have hroom : rs.length + 1 ≤ fuel := by omega
      have hrest := ih defaultHandles (hrs r' (List.mem_cons_self ..))
        (fun r'' h => hrs r'' (List.mem_cons_of_mem _ h)) hroom
      rw [documentsBehind, chainTokens, markedRoot?_record hr ⟨_, Or.inr rfl⟩]
      show some (recordDocument r) :: documentsBehind defaultHandles fuel (chainTokens r' rs) = _
      rw [hrest]
      rfl

theorem length_chainTokens (r : Record) (rs : List Record) :
    rs.length + 1 ≤ (chainTokens r rs).length := by
  induction rs generalizing r with
  | nil =>
      rw [chainTokens, List.length_append]
      exact Nat.le_add_left 1 _
  | cons r' rs ih =>
      have hrest := ih r'
      rw [chainTokens, List.length_append, List.length_cons, List.length_cons]
      omega

/-- **Behind the line of a marker**, a chain of records is one document for each record, no matter
what stands in front of the marker. -/
theorem continues_chain (rs : List Record) (hr : Writable r) (hrs : ∀ r' ∈ rs, Writable r') :
    Continues (chainText r rs) (chainTokens r rs)
      ((r :: rs).map fun r => some (recordDocument r)) where
  allowed := List.all_eq_true.mpr (legible_chainText hr hrs)
  tokens := by
    intro s n harrived hflow hn
    obtain ⟨hindent, houter⟩ := harrived.closed hflow
    have hflat : s.extend (chainText r rs) =
        flat s.tokens false (s.cursor.extend (chainText r rs)) false := by
      obtain ⟨c, tokens, count, indent, outerIndents, allowed, candidate, outer⟩ := s
      obtain rfl : outer = [] := hflow
      obtain rfl : indent = none := hindent
      obtain rfl : outerIndents = [] := houter
      obtain rfl : allowed = false := harrived.keyAllowed
      obtain rfl : candidate = none := harrived.candidate
      obtain rfl : count = tokens.length := harrived.tracked.count
      rfl
    obtain ⟨x, w, hw, hx⟩ := chainText_head hr rs
    have hresumes : Resumes (chainText r rs) := by
      rw [hw]
      exact resumes_cons (by rw [hx]; rfl)
    have hends : Ends (chainText r rs) (s.cursor.extend (chainText r rs)) false := by
      refine .here ?_
      show s.cursor.rest ++ chainText r rs = _
      rw [harrived.rest]
      rfl
    have hfaces := hends.skipGap s.tokens false hresumes
    rw [show afterFeeds (chainText r rs) = chainText r rs from by
      rw [hw, afterFeeds_cons (ne_of_isAlpha hx (by decide))]] at hfaces
    obtain ⟨m, hm, hrun⟩ := run_chain hr hrs hfaces
    rw [hflat, show n = n - m - 1 + m + 1 by omega]
    exact hrun _
  documents := fun handles fuel hfuel =>
    documentsBehind_chain handles hr.nonempty (fun r' h => (hrs r' h).nonempty)
      (Nat.le_trans (length_chainTokens r rs) hfuel)
  nonempty := by simp

end SourceEdit.Yaml
