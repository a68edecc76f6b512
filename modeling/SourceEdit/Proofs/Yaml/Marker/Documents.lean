import SourceEdit.Proofs.Yaml.Marker.Arrival
import SourceEdit.Proofs.Yaml.Node.Unended

/-!
# Documents behind a marker

A text may be continued behind the line of a marker. If what stands in front of the marker can be
read, its documents come out as if nothing followed, and after them those of the continuation,
whatever the text in front is.
-/

namespace SourceEdit.Yaml

def marked (text : List Char) : List Char := text ++ '\n' :: markerLine

/-- What a continuation behind the line of a marker reads as, no matter how the text began. -/
structure Continues (more : List Char) (behind : List Token) (docs : List (Option Document)) :
    Prop where
  allowed : more.all isAllowed = true
  tokens : ∀ (s : LexerState) (n : Nat), s.Arrived → s.outerCandidates = [] →
    more.length + 2 ≤ n → LexerState.run n (s.extend more) = s.tokens.reverse ++ behind
  documents : ∀ handles fuel, behind.length ≤ fuel → documentsBehind handles fuel behind = docs
  nonempty : docs ≠ []

def unmarkedText (text : List Char) : List Char :=
  match text with
  | '\ufeff' :: rest => rest
  | _ => text

theorem unmarkedText_marked (text more : List Char) :
    unmarkedText (marked text ++ more) = marked (unmarkedText text) ++ more := by
  cases text with
  | nil => rfl
  | cons x rest =>
      by_cases hx : x = '\ufeff'
      · rw [hx]
        rfl
      · have hkeep : ∀ l : List Char, unmarkedText (x :: l) = x :: l := by
          intro l
          unfold unmarkedText
          split
          · next heq => exact absurd (List.cons.inj heq).1 hx
          · rfl
        rw [hkeep rest]
        exact hkeep _

theorem tokens_eq (text : List Char) : tokens text =
    if (unmarkedText text).all isAllowed then
      LexerState.run ((unmarkedText text).length + 1) { cursor := { rest := unmarkedText text } }
    else [.unreadable] := rfl

/-- The documents of tokens that lack the end of the stream. -/
theorem documents_of_unended {text : List Char} (h : .streamEnd ∉ tokens text) :
    ∃ ds, documents text = ds ++ [none] ∧
      ∀ text', tokens text' = tokens text → documents text' = ds ++ [none] := by
  obtain ⟨ds, hds⟩ := documentsFrom_unended true ((tokens text).length + 1) h
  have hread : ∀ text', tokens text' = tokens text → documents text' = ds ++ [none] := by
    intro text' heq
    unfold documents
    dsimp only
    rw [heq, hds]
    cases ds <;> rfl
  exact ⟨ds, hread text rfl, hread⟩

/-- The documents are those that are read from the tokens, or an empty one where none is. -/
theorem documents_cases (text : List Char) :
    (documentsFrom true ((tokens text).length + 1) (tokens text) = [] ∧
      documents text = [some { root := none }]) ∨
    documents text = documentsFrom true ((tokens text).length + 1) (tokens text) := by
  unfold documents
  dsimp only
  split
  · next hnil => exact Or.inl ⟨hnil, rfl⟩
  · exact Or.inr rfl

theorem documents_of_append {text : List Char} {ds docs : List (Option Document)} (h : docs ≠ [])
    (hread : documentsFrom true ((tokens text).length + 1) (tokens text) = ds ++ docs) :
    documents text = ds ++ docs := by
  rcases documents_cases text with ⟨hnil, -⟩ | hsame
  · exact absurd (List.append_eq_nil_iff.mp (hread.symm.trans hnil)).2 h
  · rw [hsame, hread]

theorem documentsBehind_end (handles : List (String × String)) (fuel : Nat) :
    documentsBehind handles (fuel + 1) [.streamEnd] = [some (Document.ofRoot .missing)] := rfl

/-- The tokens behind a marker that the lexer has arrived at, without a continuation and with
one. -/
theorem LexerState.Arrived.run_behind {more : List Char} {behind : List Token}
    {docs : List (Option Document)} {s : LexerState} {n n' : Nat} (h : s.Arrived)
    (hmore : Continues more behind docs) (hn : 1 ≤ n) (hn' : more.length + 2 ≤ n') :
    ∃ us us', LexerState.run n s = s.tokens.reverse ++ us ∧
      LexerState.run n' (s.extend more) = s.tokens.reverse ++ us' ∧
      (s.outerCandidates = [] → us = [.streamEnd] ∧ us' = behind) := by
  obtain ⟨k, rfl⟩ := Nat.exists_eq_add_of_le' hn
  obtain ⟨k', rfl⟩ := Nat.exists_eq_add_of_le' (Nat.le_trans (Nat.succ_le_succ (Nat.zero_le _)) hn')
  by_cases hflow : s.outerCandidates = []
  · exact ⟨[.streamEnd], behind, h.run_end hflow _, hmore.tokens s _ h hflow hn',
      fun _ => ⟨rfl, rfl⟩⟩
  · -- inside brackets, the lexer reads on from the line end, with any text behind it
    obtain ⟨us, hus⟩ := LexerState.run_behind (n := k) h.rest h.dated h.tracked
    have hrest : (s.extend more).cursor.rest = '\n' :: more := by
      show s.cursor.rest ++ more = _
      rw [h.rest]
      rfl
    obtain ⟨us', hus'⟩ := LexerState.run_behind (n := k') (s := s.extend more) hrest
      ⟨h.dated.candidate, h.dated.outer⟩ { h.tracked with }
    exact ⟨us, us', hus, hus', fun hnone => absurd hnone hflow⟩

/-- The tokens of a text in front of a marker are the same without a continuation and with one. If
no bracket is left open, those behind the marker are the tokens of the continuation. -/
theorem tokens_marked {more : List Char} {behind : List Token} {docs : List (Option Document)}
    (h : Continues more behind docs) (text : List Char) :
    (tokens (marked text ++ more) = tokens (marked text) ∧ .streamEnd ∉ tokens (marked text)) ∨
      ∃ ts us us', .streamEnd ∉ ts ∧ tokens (marked text) = ts ++ .documentStart :: us ∧
        tokens (marked text ++ more) = ts ++ .documentStart :: us' ∧
        (depthAfter 0 ts = 0 → us = [.streamEnd] ∧ us' = behind) := by
  have hshort := tokens_eq (marked text)
  have hlong := tokens_eq (marked text ++ more)
  have hbody := unmarkedText_marked text []
  rw [List.append_nil, List.append_nil] at hbody
  rw [hbody] at hshort
  rw [unmarkedText_marked, List.all_append, h.allowed, Bool.and_true] at hlong
  by_cases hallowed : (marked (unmarkedText text)).all isAllowed = true
  · rw [if_pos hallowed] at hshort hlong
    rw [hshort, hlong]
    generalize unmarkedText text = body
    have hinside : Cursor.Inside { rest := marked body } := ⟨body, rfl⟩
    have hdated : LexerState.Dated { cursor := { rest := marked body } } :=
      ⟨fun k hk => absurd hk (by simp), fun k hk => absurd hk (by simp)⟩
    have hlonger : (marked body).length < (marked body ++ more).length + 1 := by
      rw [List.length_append]
      omega
    -- both readings stop in front of the marker, or arrive at it in the same state
    rcases LexerState.run_joins more hinside.before hdated (LexerState.Tracked.start _)
      (Nat.lt_add_one _) hlonger with hsame | ⟨s, n, n', harrived, hn, hn', hs, hs'⟩
    · exact Or.inl hsame
    · obtain ⟨ts, hts⟩ := harrived.marked
      have hreverse : s.tokens.reverse = ts.reverse ++ [.documentStart] := by
        rw [hts, List.reverse_cons]
      have hunended : Token.streamEnd ∉ ts.reverse := by
        rw [List.mem_reverse]
        exact fun hmem => harrived.tracked.unended (by rw [hts]; exact List.mem_cons_of_mem _ hmem)
      have hdepth : s.outerCandidates.length = depthAfter 0 ts.reverse := by
        rw [harrived.tracked.depth, hreverse, depthAfter_append]
        rfl
      have hmany : more.length + 2 ≤ n' := by
        simp only [List.length_append] at hn'
        omega
      have hsplit : ∀ vs : List Token,
          s.tokens.reverse ++ vs = ts.reverse ++ .documentStart :: vs := by
        intro vs
        rw [hreverse, List.append_assoc]
        rfl
      obtain ⟨us, us', hus, hus', hempty⟩ := harrived.run_behind (n := n) h (by omega) hmany
      refine Or.inr ⟨ts.reverse, us, us', hunended, ?_, ?_, fun hzero => hempty ?_⟩
      · rw [hs, hus, hsplit]
      · rw [← hsplit]
        exact hs'.trans hus'
      · rw [hzero] at hdepth
        exact List.eq_nil_of_length_eq_zero hdepth
  · rw [if_neg hallowed] at hshort hlong
    rw [hshort, hlong]
    exact Or.inl ⟨rfl, by decide⟩

/-- **Documents behind a marker** do not change those in front of it. -/
theorem documents_marked {more : List Char} {behind : List Token} {docs : List (Option Document)}
    (h : Continues more behind docs) (text : List Char) :
    (∃ ds, documents (marked text) = ds ++ [none] ∧
        documents (marked text ++ more) = ds ++ [none]) ∨
      ∃ ds, documents (marked text) = ds ++ [some (Document.ofRoot .missing)] ∧
        documents (marked text ++ more) = ds ++ docs := by
  rcases tokens_marked h text with ⟨hsame, hend⟩ | ⟨ts, us, us', hend, hshort, hlong, hbehind⟩
  · obtain ⟨ds, hds, hall⟩ := documents_of_unended hend
    exact Or.inl ⟨ds, hds, hall _ hsame⟩
  have hfuel : ∀ vs : List Token,
      ts.length + 2 ≤ (ts ++ Token.documentStart :: vs).length + 1 := by
    intro vs
    simp only [List.length_append, List.length_cons]
    omega
  rcases beforeMarker_start ts hend with ⟨ds, hfault⟩ | ⟨ds, handles, hdepth, hread⟩
  · refine Or.inl ⟨ds, documents_of_append (by simp) ?_, documents_of_append (by simp) ?_⟩
    · rw [hshort]
      exact hfault us _ (hfuel us)
    · rw [hlong]
      exact hfault us' _ (hfuel us')
  · obtain ⟨rfl, rfl⟩ := hbehind hdepth
    obtain ⟨fuel, hle, heq⟩ := hread [.streamEnd] _ (hfuel [.streamEnd])
    obtain ⟨fuel', hle', heq'⟩ := hread us' _ (hfuel us')
    simp only [List.length_append, List.length_cons, List.length_nil] at hle hle'
    obtain ⟨k, rfl⟩ : ∃ k, fuel = k + 1 := ⟨fuel - 1, by omega⟩
    rw [documentsBehind_end] at heq
    rw [h.documents handles fuel' (by omega)] at heq'
    refine Or.inr ⟨ds, documents_of_append (by simp) ?_, documents_of_append h.nonempty ?_⟩
    · rw [hshort]
      exact heq
    · rw [hlong]
      exact heq'

end SourceEdit.Yaml
