import SourceEdit.Proofs.Yaml.Marker.Lexer
import SourceEdit.Proofs.Yaml.Written.Value

/-!
# An entry of a record read back

An entry is read in three steps: its name, a colon that makes the name a key, and its value. The
first entry opens the block that the others belong to.
-/

namespace SourceEdit.Yaml

variable {ts : List Token} {c : Cursor} {name t u w : List Char} {value : String} {x : Char}
  {inside allowed : Bool} {i l k n fuel : Nat}

/-! ## Gaps -/

/-- Where no candidate waits, a step starts behind the gap. -/
theorem run_flat {c' : Cursor} {allowed' : Bool} {s : LexerState}
    (hgap : LexerState.skipGap (c.rest.length + 1) (flat ts inside c allowed) =
      flat ts inside c' allowed')
    (hx : c'.peek = some x) (hnext : (flat ts inside c' allowed').next? x = some s) :
    LexerState.run (n + 1) (flat ts inside c allowed) = LexerState.run n s := by
  have hclosed : (flat ts inside c' allowed').closeBlocks (some c'.column) =
      flat ts inside c' allowed' := by
    cases inside <;> rfl
  rw [LexerState.run_of_gap n hgap (show _ = some (flat ts inside c' allowed') from rfl)]
  exact LexerState.scan_of_next n hclosed hx hnext

/-- The gap that starts with a line end and goes on to the next line. -/
theorem skipGap_feeds (ts : List Token) (inside : Bool) (ht : Resumes t)
    (hfuel : t.length < fuel) : ∃ j m,
    LexerState.skipGap fuel (flat ts inside ⟨t, i, l, 0⟩ true) =
      flat ts inside ⟨afterFeeds t, j, m, 0⟩ true := by
  induction t generalizing i l fuel with
  | nil =>
      obtain ⟨fuel, rfl⟩ : ∃ k, fuel = k + 1 := ⟨fuel - 1, by omega⟩
      exact ⟨i, l, LexerState.skipGap_of_end fuel rfl⟩
  | cons y t ih =>
      obtain ⟨fuel, rfl⟩ : ∃ k, fuel = k + 1 := ⟨fuel - 1, by omega⟩
      by_cases hy : y = '\n'
      · obtain rfl := hy
        obtain ⟨j, m, hgap⟩ := ih (i := i + 1) (l := l + 1) ht (Nat.lt_of_succ_lt_succ hfuel)
        exact ⟨j, m, (LexerState.skipGap_of_lineEnd fuel rfl).trans hgap⟩
      · have hafter : afterFeeds (y :: t) = y :: t :=
          List.dropWhile_cons_of_neg (by rwa [beq_iff_eq])
        have hsolid : Solid y := solid_of_resumes (ht y (by rw [hafter]; rfl))
        have hgap := hsolid.gap
        rw [Bool.or_eq_false_iff, isBlank, Bool.or_eq_false_iff] at hgap
        rw [hafter]
        refine ⟨i, l, LexerState.skipGap_of_peek fuel rfl hsolid.mark ?_ hsolid.comment hgap.2⟩
        rw [LexerState.isGapBlank, hgap.1.1, hgap.1.2]
        rfl

/-- Behind a value, the gap goes on to the next line. -/
theorem Ends.skipGap (ts : List Token) (inside : Bool) (h : Ends t c allowed) (ht : Resumes t) :
    ∃ j m,
    LexerState.skipGap (c.rest.length + 1) (flat ts inside c allowed) =
      flat ts inside ⟨afterFeeds t, j, m, 0⟩ true := by
  cases h with
  | here hrest =>
      have hlength : t.length < c.rest.length := by
        rw [hrest]
        exact Nat.lt_succ_self _
      obtain ⟨j, m, hgap⟩ := skipGap_feeds (i := c.index + 1) (l := c.line + 1) ts inside ht hlength
      have hallowed : (allowed || !(flat ts inside c allowed).inFlow) = true := Bool.or_true _
      have hstep :=
        LexerState.skipGap_of_lineEnd (s := flat ts inside c allowed) c.rest.length hrest
      rw [show (flat ts inside c allowed).keyAllowed = allowed from rfl, hallowed] at hstep
      exact ⟨j, m, hstep.trans hgap⟩
  | behind hrest hcolumn =>
      obtain ⟨rest, index, line, column⟩ := c
      obtain rfl : rest = afterFeeds t := hrest
      obtain rfl : column = 0 := hcolumn
      have hagain : Resumes (afterFeeds t) :=
        fun x hx => ht x (by rwa [afterFeeds_afterFeeds] at hx)
      obtain ⟨j, m, hgap⟩ := skipGap_feeds (i := index) (l := line) ts inside hagain
        (Nat.lt_succ_self _)
      rw [afterFeeds_afterFeeds] at hgap
      exact ⟨j, m, hgap⟩

/-- The blank in front of a value. -/
theorem skipGap_blank (hx : Solid x) :
    LexerState.skipGap (fuel + 1) (flat ts inside ⟨' ' :: x :: w, i, l, k + 1⟩ false) =
      flat ts inside ⟨x :: w, i + 1, l, k + 2⟩ false := by
  have hgap := hx.gap
  rw [Bool.or_eq_false_iff, isBlank, Bool.or_eq_false_iff] at hgap
  have hstart : (flat ts inside ⟨' ' :: x :: w, i, l, k + 1⟩ false).gapStart =
      ⟨' ' :: x :: w, i, l, k + 1⟩ := by
    refine if_neg ?_
    rw [Bool.and_eq_true]
    exact fun h => Bool.false_ne_true h.2
  have hblank : (flat ts inside ⟨' ' :: x :: w, i, l, k + 1⟩ false).isGapBlank x = false := by
    rw [LexerState.isGapBlank, hgap.1.1, hgap.1.2]
    rfl
  have hskip : (⟨' ' :: x :: w, i, l, k + 1⟩ : Cursor).skipWhile
      (flat ts inside ⟨' ' :: x :: w, i, l, k + 1⟩ false).isGapBlank =
        ⟨x :: w, i + 1, l, k + 2⟩ := by
    rw [Cursor.skipWhile, List.takeWhile_cons_of_pos rfl,
      List.takeWhile_cons_of_neg (by rw [hblank]; exact Bool.false_ne_true)]
    rfl
  have hstop : (flat ts inside ⟨' ' :: x :: w, i, l, k + 1⟩ false).gapStop =
      ⟨x :: w, i + 1, l, k + 2⟩ := by
    rw [LexerState.gapStop, hstart, hskip, Cursor.skipComment_of_peek rfl hx.comment]
  rw [LexerState.skipGap_succ, hstop, if_neg]
  · rfl
  · show ¬ isBreak x = true
    rw [hgap.2]
    exact Bool.false_ne_true

/-! ## Names -/

structure IsName (name : List Char) : Prop where
  nonempty : name ≠ []
  letters : ∀ y ∈ name, y.isAlpha = true
  short : name.length ≤ 1024

theorem ne_of_isAlpha {y : Char} (hx : x.isAlpha = true) (hy : y.isAlpha = false) : x ≠ y := by
  rintro rfl
  rw [hx] at hy
  exact absurd hy (by decide)

theorem plainStart_of_isAlpha (hx : x.isAlpha = true) (next : Option Char) :
    PlainStart x next := by
  refine ⟨?_, ne_of_isAlpha hx (by decide), fun h => absurd h (ne_of_isAlpha hx (by decide))⟩
  rw [LexerState.startsPlain, if_neg (by rw [beq_iff_eq]; exact ne_of_isAlpha hx (by decide)),
    if_neg, Bool.not_eq_true', Bool.eq_false_iff, Ne, List.contains_iff_mem]
  · intro hmem
    have hall : ∀ y ∈ "-?:,[]\x7b\x7d#&*!|>'\"%@`".toList, (!y.isAlpha) = true :=
      List.all_eq_true.mp (by decide)
    have hother := hall x hmem
    rw [hx] at hother
    exact absurd hother (by decide)
  · rw [Bool.or_eq_true, beq_iff_eq, beq_iff_eq, not_or]
    exact ⟨ne_of_isAlpha hx (by decide), ne_of_isAlpha hx (by decide)⟩

/-- Letters up to a colon with a blank behind it. -/
theorem plainRun_name {a : List Char} (hname : ∀ y ∈ name, y.isAlpha = true)
    (hfuel : name.length < fuel) :
    plainRun false { text := a } fuel ⟨name ++ ':' :: ' ' :: w, i, l, k⟩ =
      some ({ text := name.reverse ++ a },
        ⟨':' :: ' ' :: w, i + name.length, l, k + name.length⟩) := by
  induction name generalizing a i k fuel with
  | nil =>
      obtain ⟨fuel, rfl⟩ : ∃ k, fuel = k + 1 := ⟨fuel - 1, by omega⟩
      rfl
  | cons y name ih =>
      obtain ⟨fuel, rfl⟩ : ∃ k, fuel = k + 1 := ⟨fuel - 1, by omega⟩
      have hy := hname y (List.mem_cons_self ..)
      have hsolid : Solid y := solid_of_resumes (by rw [hy]; rfl)
      have hcolon : (y == ':') = false := beq_eq_false_iff_ne.mpr (ne_of_isAlpha hy (by decide))
      have hrest := ih (a := y :: a) (i := i + 1) (k := k + 1)
        (fun z hz => hname z (List.mem_cons_of_mem _ hz)) (Nat.lt_of_succ_lt_succ hfuel)
      rw [plainRun]
      show (if (isBlank y || isBreak y) = true then _ else _) = _
      rw [hsolid.gap, hcolon]
      refine hrest.trans ?_
      rw [List.reverse_cons, List.append_assoc, List.length_cons, Nat.add_right_comm i,
        Nat.add_right_comm k]
      rfl

theorem plain?_name (hname : IsName name) (hmarker : (⟨name ++ ':' :: ' ' :: w, i, l, k⟩ :
    Cursor).atDocumentMarker = false) :
    plain? false n ⟨name ++ ':' :: ' ' :: w, i, l, k⟩ = some (String.ofList name, false,
      ⟨':' :: ' ' :: w, i + name.length, l, k + name.length⟩) := by
  obtain ⟨x, name', rfl⟩ := List.exists_cons_of_ne_nil hname.nonempty
  have hx := hname.letters x (List.mem_cons_self ..)
  have hpeek : (some x == some '#') = false :=
    beq_eq_false_iff_ne.mpr fun h => ne_of_isAlpha hx (by decide) (Option.some.inj h)
  have hlength : (x :: name').length < (x :: name' ++ ':' :: ' ' :: w).length + 1 := by
    rw [List.length_append]
    omega
  have hrun := plainRun_name (a := []) (w := w) (i := i) (l := l) (k := k) hname.letters hlength
  rw [plain?, plainLoop]
  dsimp only
  rw [hmarker]
  show (if (false || some x == some '#') = true then _ else _) = _
  rw [hpeek, Bool.false_or, if_neg Bool.false_ne_true]
  show (plainRun false { text := [] } ((x :: name' ++ ':' :: ' ' :: w).length + 1) _).bind _ = _
  rw [hrun]
  show some (String.ofList ((x :: name').reverse ++ []).reverse, _, _) = _
  rw [List.append_nil, List.reverse_reverse]

/-! ## Lines -/

/-- The tokens of the name of an entry, the latest first. The first entry opens the block. -/
def nameTokens (name : List Char) (inside : Bool) : List Token :=
  .value :: .scalar .plain (String.ofList name) :: .key ::
    if inside then [] else [.blockMappingStart]

def entryLine (name : List Char) (value : String) : List Char :=
  name ++ ':' :: ' ' :: valueText value

theorem recordLine_eq (name value : String) :
    recordLine name value = entryLine name.toList value := by
  rw [entryLine, valueText, recordLine]
  generalize written (styleFor value) value.toList = r
  obtain ⟨text, ended⟩ := r
  simp only [List.append_assoc, List.cons_append]

/-- The lexer at the colon behind the name of an entry. -/
def named (ts : List Token) (inside : Bool) (c : Cursor) (k : KeyCandidate) (name : List Char) :
    LexerState :=
  { flat (.scalar .plain (String.ofList name) :: ts) inside c false with candidate := some k }

theorem run_name (hname : IsName name)
    (hgap : LexerState.skipGap (c.rest.length + 1) (flat ts inside c allowed) =
      flat ts inside ⟨name ++ ':' :: ' ' :: w, i, l, 0⟩ true) :
    LexerState.run (n + 1) (flat ts inside c allowed) = LexerState.run n
      (named ts inside ⟨':' :: ' ' :: w, i + name.length, l, name.length⟩
        ⟨ts.length, inside, i, l, 0⟩ name) := by
  obtain ⟨x, name', rfl⟩ := List.exists_cons_of_ne_nil hname.nonempty
  have hx := hname.letters x (List.mem_cons_self ..)
  have hmarker : (⟨x :: name' ++ ':' :: ' ' :: w, i, l, 0⟩ : Cursor).atDocumentMarker = false := by
    have hdash : (some x == some '-') = false :=
      beq_eq_false_iff_ne.mpr fun h => ne_of_isAlpha hx (by decide) (Option.some.inj h)
    have hdot : (some x == some '.') = false :=
      beq_eq_false_iff_ne.mpr fun h => ne_of_isAlpha hx (by decide) (Option.some.inj h)
    rw [Cursor.atDocumentMarker, Cursor.atMarker, Cursor.atMarker,
      show (⟨x :: name' ++ ':' :: ' ' :: w, i, l, 0⟩ : Cursor).peek = some x from rfl, hdash, hdot,
      Bool.and_false]
    rfl
  refine run_flat hgap (show Cursor.peek _ = some x from rfl) ?_
  rw [(plainStart_of_isAlpha hx _).next? rfl hmarker]
  have hnote : (flat ts inside ⟨x :: name' ++ ':' :: ' ' :: w, i, l, 0⟩ true).noteCandidate? =
      some { flat ts inside ⟨x :: name' ++ ':' :: ' ' :: w, i, l, 0⟩ true with
        candidate := some ⟨ts.length, inside, i, l, 0⟩ } := by
    cases inside <;> rfl
  rw [hnote, Option.bind_some]
  show (plain? false _ ⟨x :: name' ++ ':' :: ' ' :: w, i, l, 0⟩).bind _ = _
  rw [plain?_name hname hmarker, Nat.zero_add]
  rfl

theorem insertAt_behind {s : LexerState} (us ts : List Token) (t : Token)
    (htokens : s.tokens = us ++ ts) (hcount : s.count = s.tokens.length) :
    s.insertAt ts.length t = { s with tokens := us ++ t :: ts, count := s.count + 1 } := by
  have hlater : s.count - ts.length = us.length := by
    rw [hcount, htokens, List.length_append, Nat.add_sub_cancel]
  rw [LexerState.insertAt, hlater, htokens, List.take_left, List.drop_left]

/-- The colon makes the name a key. -/
theorem valueMark?_named {m : Nat} :
    (named ts inside ⟨':' :: ' ' :: w, m, l, k⟩ ⟨ts.length, inside, i, l, 0⟩ name).valueMark? =
      some (flat (nameTokens name inside ++ ts) true ⟨' ' :: w, m + 1, l, k + 1⟩ false) := by
  have hkey := insertAt_behind (s := named ts inside ⟨':' :: ' ' :: w, m, l, k⟩
    ⟨ts.length, inside, i, l, 0⟩ name) [.scalar .plain (String.ofList name)] ts .key rfl rfl
  show some (({ (LexerState.insertAt _ ts.length .key).openBlock 0 (some ts.length)
    .blockMappingStart with candidate := none, keyAllowed := false } : LexerState).indicator 1
      .value) = _
  rw [hkey]
  cases inside with
  | true => rfl
  | false =>
      have hstart := insertAt_behind
        (s := ⟨⟨':' :: ' ' :: w, m, l, k⟩, .scalar .plain (String.ofList name) :: .key :: ts,
          ts.length + 2, some 0, [none], false, some ⟨ts.length, false, i, l, 0⟩, []⟩)
        [.scalar .plain (String.ofList name), .key] ts .blockMappingStart rfl rfl
      show some (({ LexerState.insertAt ⟨⟨':' :: ' ' :: w, m, l, k⟩,
        .scalar .plain (String.ofList name) :: .key :: ts, ts.length + 2, some 0, [none], false,
          some ⟨ts.length, false, i, l, 0⟩, []⟩ ts.length .blockMappingStart with
            candidate := none, keyAllowed := false } : LexerState).indicator 1 .value) = _
      rw [hstart]
      rfl

/-- A candidate that is near enough is kept. -/
theorem dropStale?_fresh {s : LexerState} {d : KeyCandidate} (hcandidate : s.candidate = some d)
    (hflow : s.outerCandidates = []) (hfresh : LexerState.isStale s.cursor d = false) :
    s.dropStale? = some s := by
  obtain ⟨c, tokens, count, indent, outerIndents, allowed, candidate, outer⟩ := s
  obtain rfl : candidate = some d := hcandidate
  obtain rfl : outer = [] := hflow
  have hfresh : LexerState.isStale c d = false := hfresh
  show (if (LexerState.isStale c d && d.required || false) = true then none
    else some (⟨c, tokens, count, indent, outerIndents, allowed,
      if LexerState.isStale c d = true then none else some d, []⟩ : LexerState)) = _
  rw [hfresh]
  rfl

theorem run_mark (hname : IsName name) :
    LexerState.run (n + 1) (named ts inside ⟨':' :: ' ' :: w, i + name.length, l, name.length⟩
        ⟨ts.length, inside, i, l, 0⟩ name) =
      LexerState.run n (flat (nameTokens name inside ++ ts) true
        ⟨' ' :: w, i + name.length + 1, l, name.length + 1⟩ false) := by
  obtain ⟨m, hm⟩ : ∃ m, name.length = m + 1 :=
    ⟨name.length - 1, by have := List.length_pos_iff.mpr hname.nonempty; omega⟩
  have hshort := hname.short
  have hstale : (named ts inside ⟨':' :: ' ' :: w, i + name.length, l, name.length⟩
      ⟨ts.length, inside, i, l, 0⟩ name).dropStale? =
        some (named ts inside ⟨':' :: ' ' :: w, i + name.length, l, name.length⟩
          ⟨ts.length, inside, i, l, 0⟩ name) := by
    refine dropStale?_fresh rfl rfl ?_
    rw [LexerState.isStale, Bool.or_eq_false_iff, decide_eq_false_iff_not, decide_eq_false_iff_not]
    exact ⟨Nat.lt_irrefl l, by show ¬ i + 1024 < i + name.length; omega⟩
  have hgap := LexerState.skipGap_of_peek (x := ':') (':' :: ' ' :: w).length
    (s := named ts inside ⟨':' :: ' ' :: w, i + name.length, l, name.length⟩
      ⟨ts.length, inside, i, l, 0⟩ name) rfl (by decide) rfl (by decide) rfl
  have hclosed : (named ts inside ⟨':' :: ' ' :: w, i + name.length, l, name.length⟩
      ⟨ts.length, inside, i, l, 0⟩ name).closeBlocks (some name.length) =
        named ts inside ⟨':' :: ' ' :: w, i + name.length, l, name.length⟩
          ⟨ts.length, inside, i, l, 0⟩ name := by
    cases inside <;> rfl
  have hnext : (named ts inside ⟨':' :: ' ' :: w, i + name.length, l, name.length⟩
      ⟨ts.length, inside, i, l, 0⟩ name).next? ':' =
        (named ts inside ⟨':' :: ' ' :: w, i + name.length, l, name.length⟩
          ⟨ts.length, inside, i, l, 0⟩ name).valueMark? := by
    rw [hm]
    rfl
  rw [LexerState.run_of_gap n hgap hstale]
  exact LexerState.scan_of_next n hclosed rfl (hnext.trans valueMark?_named)

/-- **A line of a record** adds a key with its name and a value with its text, and leads to the next
line. -/
theorem run_entry (value : String) (hname : IsName name) (ht : Resumes t)
    (hopen : styleFor value = .literal → keepsBreaks value.toList = true → t.head? ≠ some '\n')
    (hgap : LexerState.skipGap (c.rest.length + 1) (flat ts inside c allowed) =
      flat ts inside ⟨entryLine name value ++ t, i, l, 0⟩ true) :
    ∃ c' allowed', Ends t c' allowed' ∧ ∀ n,
      LexerState.run (n + 3) (flat ts inside c allowed) = LexerState.run n
        (flat (.scalar (styleFor value) value :: nameTokens name inside ++ ts) true c'
          allowed') := by
  have hline : entryLine name value ++ t = name ++ ':' :: ' ' :: (valueText value ++ t) := by
    rw [entryLine, List.append_assoc]
    rfl
  rw [hline] at hgap
  obtain ⟨x, w, hw, hx, hread⟩ := readsScalar_value ht hopen
  obtain ⟨c', allowed', hnext, hends⟩ :=
    hread (nameTokens name inside ++ ts) (i + name.length + 1 + 1) l (name.length + 1)
  refine ⟨c', allowed', hends, fun n => ?_⟩
  rw [run_name hname hgap, run_mark hname, hw]
  rw [hw] at hnext
  exact run_flat (skipGap_blank hx) rfl hnext

end SourceEdit.Yaml
