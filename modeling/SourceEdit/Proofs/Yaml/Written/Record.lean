import SourceEdit.Proofs.Yaml.Written.Entry

/-!
# Records read back as tokens

A record is read entry by entry. Behind the last one, the marker of the next document or the end of
the text closes its block, unless the marker of the end of its document has done so before. So a
chain of records gives the tokens of each, with a marker in front of all but the first.
-/

namespace SourceEdit.Yaml

abbrev Record := List (String × String)

variable {ts : List Token} {c : Cursor} {t u w : List Char} {x : Char} {f : String × String}
  {r : Record} {rs : List Record} {inside allowed : Bool} {i l k n : Nat}

/-- Behind the gap, the lexer is at the start of a line. -/
def Faces (w : List Char) (ts : List Token) (inside : Bool) (c : Cursor) (allowed : Bool) : Prop :=
  ∃ i l, LexerState.skipGap (c.rest.length + 1) (flat ts inside c allowed) =
    flat ts inside ⟨w, i, l, 0⟩ true

/-! ## Entries -/

def entryTokens (f : String × String) (inside : Bool) : List Token :=
  .scalar (styleFor f.2) f.2 :: nameTokens f.1.toList inside

def entriesTokens (inside : Bool) : Record → List Token
  | [] => []
  | f :: r => entriesTokens true r ++ entryTokens f inside

def entryLines (r : Record) : List Char := r.flatMap fun f => entryLine f.1.toList f.2

/-- Whether the line ends at the end of a record belong to its last text, and may not be followed by
others. -/
def EndsOpen (r : Record) : Prop :=
  ∃ f, r.getLast? = some f ∧ styleFor f.2 = .literal ∧ keepsBreaks f.2.toList = true

instance : Decidable (EndsOpen r) :=
  decidable_of_iff (r.getLast?.any (fun f => styleFor f.2 == .literal && keepsBreaks f.2.toList) =
    true) (by simp [EndsOpen, Option.any_eq_true])

/-- A record that can be written: it has entries, and their names are words. -/
structure Writable (r : Record) : Prop where
  nonempty : r ≠ []
  names : ∀ f ∈ r, IsName f.1.toList

theorem entryLines_head (hr : Writable r) (t : List Char) :
    ∃ x w, entryLines r ++ t = x :: w ∧ x.isAlpha = true := by
  obtain ⟨f, r, rfl⟩ := List.exists_cons_of_ne_nil hr.nonempty
  have hname := hr.names f (List.mem_cons_self ..)
  obtain ⟨x, name, hx⟩ := List.exists_cons_of_ne_nil hname.nonempty
  refine ⟨x, name ++ ':' :: ' ' :: valueText f.2 ++ entryLines r ++ t, ?_,
    hname.letters x (by rw [hx]; exact List.mem_cons_self ..)⟩
  rw [entryLines, List.flatMap_cons, entryLine, hx]
  rfl

theorem afterFeeds_cons (hx : x ≠ '\n') : afterFeeds (x :: w) = x :: w :=
  List.dropWhile_cons_of_neg (by rwa [beq_iff_eq])

theorem resumes_cons (hx : (x.isAlpha || x == '-' || x == '.') = true) : Resumes (x :: w) := by
  have hfeed : x ≠ '\n' := by
    rintro rfl
    exact absurd hx (by decide)
  intro y hy
  rw [afterFeeds_cons hfeed] at hy
  obtain rfl := Option.some.inj hy
  exact hx

theorem run_entries (hr : Writable r) (ht : Resumes t) (hopen : EndsOpen r → t.head? ≠ some '\n')
    (hfaces : Faces (entryLines r ++ t) ts inside c allowed) :
    ∃ c' allowed', Ends t c' allowed' ∧ ∀ n,
      LexerState.run (n + 3 * r.length) (flat ts inside c allowed) =
        LexerState.run n (flat (entriesTokens inside r ++ ts) true c' allowed') := by
  induction r generalizing ts inside c allowed with
  | nil => exact absurd rfl hr.nonempty
  | cons f r ih =>
      obtain ⟨i, l, hgap⟩ := hfaces
      have hname := hr.names f (List.mem_cons_self ..)
      rw [entryLines, List.flatMap_cons, List.append_assoc] at hgap
      cases r with
      | nil =>
          have hlast : styleFor f.2 = .literal → keepsBreaks f.2.toList = true →
              t.head? ≠ some '\n' := fun hstyle hkeeps => hopen ⟨f, rfl, hstyle, hkeeps⟩
          obtain ⟨c', allowed', hends, hrun⟩ := run_entry f.2 hname ht hlast hgap
          exact ⟨c', allowed', hends, hrun⟩
      | cons f' r =>
          have hr' : Writable (f' :: r) :=
            ⟨by simp, fun g hg => hr.names g (List.mem_cons_of_mem _ hg)⟩
          obtain ⟨x, w, hw, hx⟩ := entryLines_head hr' t
          have hfeed : x ≠ '\n' := ne_of_isAlpha hx (by decide)
          have hresumes : Resumes (x :: w) := resumes_cons (by rw [hx]; rfl)
          rw [show (f' :: r).flatMap (fun f => entryLine f.1.toList f.2) ++ t = x :: w from hw]
            at hgap
          obtain ⟨c₁, allowed₁, hends₁, hrun₁⟩ := run_entry f.2 hname hresumes
            (fun _ _ h => hfeed (Option.some.inj h)) hgap
          have hfaces₁ := hends₁.skipGap (entryTokens f inside ++ ts) true hresumes
          rw [afterFeeds_cons hfeed, ← hw] at hfaces₁
          obtain ⟨c', allowed', hends, hrun⟩ := ih hr' (fun h => by
            obtain ⟨g, hg, hstyle, hkeeps⟩ := h
            exact hopen ⟨g, by rw [List.getLast?_cons_cons]; exact hg, hstyle, hkeeps⟩) hfaces₁
          refine ⟨c', allowed', hends, fun n => ?_⟩
          rw [show n + 3 * (f :: f' :: r).length = n + 3 * (f' :: r).length + 3 from by
            simp only [List.length_cons]; omega, hrun₁]
          refine (hrun n).trans ?_
          rw [show entriesTokens inside (f :: f' :: r) = entriesTokens true (f' :: r) ++
            entryTokens f inside from rfl, List.append_assoc]

/-! ## The end of a document -/

def closers (inside : Bool) : List Token := if inside then [.blockEnd] else []

/-- The marker of a document closes its block. -/
theorem run_documentStart (hfaces : Faces ('-' :: '-' :: '-' :: '\n' :: t) ts inside c allowed) :
    ∃ c', Ends t c' false ∧ ∀ n, LexerState.run (n + 1) (flat ts inside c allowed) =
      LexerState.run n (flat (.documentStart :: closers inside ++ ts) false c' false) := by
  obtain ⟨i, l, hgap⟩ := hfaces
  refine ⟨⟨'\n' :: t, i + 3, l, 3⟩, .here rfl, fun n => run_flat (x := '-') hgap rfl ?_⟩
  cases inside <;> rfl

theorem run_documentEnd (hfaces : Faces ('.' :: '.' :: '.' :: '\n' :: t) ts inside c allowed) :
    ∃ c', Ends t c' false ∧ ∀ n, LexerState.run (n + 1) (flat ts inside c allowed) =
      LexerState.run n (flat (.documentEnd :: closers inside ++ ts) false c' false) := by
  obtain ⟨i, l, hgap⟩ := hfaces
  refine ⟨⟨'\n' :: t, i + 3, l, 3⟩, .here rfl, fun n => run_flat (x := '.') hgap rfl ?_⟩
  cases inside <;> rfl

theorem run_streamEnd (hfaces : Faces [] ts inside c allowed) :
    LexerState.run (n + 1) (flat ts inside c allowed) =
      (.streamEnd :: closers inside ++ ts).reverse := by
  obtain ⟨i, l, hgap⟩ := hfaces
  rw [LexerState.run_of_gap n hgap (show _ = some (flat ts inside ⟨[], i, l, 0⟩ true) from rfl)]
  cases inside <;> rfl

/-! ## A record -/

def recordText (r : Record) : List Char :=
  entryLines r ++ if EndsOpen r then ['.', '.', '.', '\n'] else []

def recordTokens (r : Record) : List Token :=
  (entriesTokens false r).reverse ++ .blockEnd :: if EndsOpen r then [.documentEnd] else []

theorem renderRecord_toList (r : Record) : (renderRecord r).toList = recordText r := by
  have hopen : (r.getLast?.any fun f => styleFor f.2 == .literal && keepsBreaks f.2.toList) =
      decide (EndsOpen r) := by
    rw [Bool.eq_iff_iff, decide_eq_true_eq]
    simp [EndsOpen, Option.any_eq_true]
  have hlines : (r.flatMap fun f => recordLine f.1 f.2) = entryLines r :=
    congrArg r.flatMap (funext fun f => recordLine_eq f.1 f.2)
  rw [renderRecord, hopen, hlines, String.toList_append, String.toList_ofList, recordText]
  by_cases h : EndsOpen r
  · rw [if_pos h, if_pos (decide_eq_true h)]
    rfl
  · rw [if_neg h, if_neg (by rwa [decide_eq_true_eq])]
    rfl

/-- Whether the block of a record is still open at the end of its text. -/
def staysInside (r : Record) : Bool := !decide (EndsOpen r)

theorem length_entryLines (hnames : ∀ f ∈ r, IsName f.1.toList) :
    3 * r.length ≤ (entryLines r).length := by
  induction r with
  | nil => exact Nat.le_refl _
  | cons f r ih =>
      have hrest := ih fun g hg => hnames g (List.mem_cons_of_mem _ hg)
      have hpos := List.length_pos_iff.mpr (hnames f (List.mem_cons_self ..)).nonempty
      have hline : 3 ≤ (entryLine f.1.toList f.2).length := by
        simp only [entryLine, List.length_append, List.length_cons]
        omega
      rw [entryLines] at hrest ⊢
      rw [List.flatMap_cons, List.length_append, List.length_cons]
      omega

/-- **A record** is read as its tokens. Its block is closed by what follows, if not by its own
marker. -/
theorem run_record (hr : Writable r) (ht : Resumes t)
    (hfaces : Faces (recordText r ++ t) ts false c allowed) :
    ∃ m c' allowed' us, m ≤ (recordText r).length ∧ Ends t c' allowed' ∧
      closers (staysInside r) ++ us = (recordTokens r).reverse ∧ ∀ n,
        LexerState.run (n + m) (flat ts false c allowed) =
          LexerState.run n (flat (us ++ ts) (staysInside r) c' allowed') := by
  have hlength := length_entryLines hr.names
  by_cases hopen : EndsOpen r
  · rw [recordText, if_pos hopen, List.append_assoc] at hfaces
    have hdot : Resumes ('.' :: '.' :: '.' :: '\n' :: t) := resumes_cons rfl
    obtain ⟨c₁, allowed₁, hends₁, hrun₁⟩ := run_entries hr hdot (fun _ => by simp) hfaces
    obtain ⟨c', hends, hrun⟩ := run_documentEnd (hends₁.skipGap
      (entriesTokens false r ++ ts) true hdot)
    refine ⟨1 + 3 * r.length, c', false, .documentEnd :: .blockEnd :: entriesTokens false r, ?_,
      hends, ?_, fun n => ?_⟩
    · rw [recordText, if_pos hopen, List.length_append, List.length_cons]
      omega
    · rw [staysInside, decide_eq_true hopen, recordTokens, if_pos hopen, List.reverse_append,
        List.reverse_reverse]
      rfl
    · rw [staysInside, decide_eq_true hopen, ← Nat.add_assoc, hrun₁]
      exact hrun n
  · rw [recordText, if_neg hopen, List.append_nil] at hfaces
    obtain ⟨c', allowed', hends, hrun⟩ := run_entries hr ht (fun h => absurd h hopen) hfaces
    refine ⟨3 * r.length, c', allowed', entriesTokens false r, ?_, hends, ?_, fun n => ?_⟩
    · rw [recordText, if_neg hopen, List.append_nil]
      exact hlength
    · rw [staysInside, decide_eq_false hopen, recordTokens, if_neg hopen, List.reverse_append,
        List.reverse_reverse]
      rfl
    · rw [staysInside, decide_eq_false hopen]
      exact hrun n

/-! ## Chains -/

def chainText (r : Record) : List Record → List Char
  | [] => recordText r
  | r' :: rs => recordText r ++ '\n' :: (markerLine ++ chainText r' rs)

def chainTokens (r : Record) : List Record → List Token
  | [] => recordTokens r ++ [.streamEnd]
  | r' :: rs => recordTokens r ++ .documentStart :: chainTokens r' rs

theorem chainText_head (hr : Writable r) (rs : List Record) :
    ∃ x w, chainText r rs = x :: w ∧ x.isAlpha = true := by
  have hsplit : ∃ t, chainText r rs = entryLines r ++ t := by
    cases rs with
    | nil => exact ⟨_, rfl⟩
    | cons r' rs => exact ⟨_, List.append_assoc ..⟩
  obtain ⟨t, ht⟩ := hsplit
  rw [ht]
  exact entryLines_head hr t

/-- **A chain of records** is read to its end. -/
theorem run_chain (hr : Writable r) (hrs : ∀ r' ∈ rs, Writable r')
    (hfaces : Faces (chainText r rs) ts false c allowed) :
    ∃ m, m ≤ (chainText r rs).length ∧ ∀ n,
      LexerState.run (n + m + 1) (flat ts false c allowed) = ts.reverse ++ chainTokens r rs := by
  induction rs generalizing r ts c allowed with
  | nil =>
      have hend : Resumes [] := fun x hx => absurd hx (by simp [afterFeeds])
      rw [chainText, ← List.append_nil (recordText r)] at hfaces
      obtain ⟨m, c', allowed', us, hm, hends, hus, hrun⟩ := run_record hr hend hfaces
      refine ⟨m, hm, fun n => ?_⟩
      rw [show n + m + 1 = n + 1 + m by omega, hrun (n + 1),
        run_streamEnd (hends.skipGap (us ++ ts) _ hend)]
      rw [chainTokens, List.cons_append, List.reverse_cons, ← List.append_assoc, hus,
        List.reverse_append, List.reverse_reverse, List.append_assoc]
  | cons r' rs ih =>
      obtain ⟨x, w, hw, hx⟩ := chainText_head (hrs r' (List.mem_cons_self ..)) rs
      have hfeed : x ≠ '\n' := ne_of_isAlpha hx (by decide)
      have hdash : Resumes ('\n' :: '-' :: '-' :: '-' :: '\n' :: chainText r' rs) :=
        resumes_cons (x := '-') (w := '-' :: '-' :: '\n' :: chainText r' rs) rfl
      have hnext : Resumes (chainText r' rs) := by
        rw [hw]
        exact resumes_cons (by rw [hx]; rfl)
      obtain ⟨m, c₁, allowed₁, us, hm, hends₁, hus, hrun₁⟩ := run_record hr hdash hfaces
      obtain ⟨c₂, hends₂, hrun₂⟩ := run_documentStart (hends₁.skipGap (us ++ ts) _ hdash)
      have hfaces₂ := hends₂.skipGap
        (.documentStart :: closers (staysInside r) ++ (us ++ ts)) false hnext
      rw [show afterFeeds (chainText r' rs) = chainText r' rs from by
        rw [hw, afterFeeds_cons hfeed]] at hfaces₂
      obtain ⟨m', hm', hrun'⟩ := ih (hrs r' (List.mem_cons_self ..))
        (fun r'' h => hrs r'' (List.mem_cons_of_mem _ h)) hfaces₂
      refine ⟨m' + 1 + m, ?_, fun n => ?_⟩
      · simp only [chainText, List.length_append, List.length_cons]
        omega
      · rw [show n + (m' + 1 + m) + 1 = n + m' + 1 + 1 + m by omega, hrun₁, hrun₂, hrun' n]
        rw [chainTokens, List.cons_append, List.reverse_cons, ← List.append_assoc, hus,
          List.reverse_append, List.reverse_reverse]
        simp only [List.append_assoc, List.singleton_append]

end SourceEdit.Yaml
