import SourceEdit.Proofs.Yaml.Ending.Nodes
import SourceEdit.Proofs.Yaml.Ending.Tokens

/-!
# Documents at the end of the stream

Where all documents of a stream can be read, the same are read with the start of another one in
front of the end, and after them one that is empty. So the line of a marker behind a text leaves its
documents as they are, unless the text gains a line end.
-/

namespace SourceEdit.Yaml

open Outcome (Follows Beside)
open NodeState (allReopen)

variable {α : Type} {X Y : List Token} {fuel fuel' : Nat}

/-! ## Reading at the end of the stream -/

/-- The same tokens but for the end of the stream. -/
def ReopensTo (ts us : List Token) : Prop := us = ts.map reopen

theorem afterDocument?_reopened (ts : List Token) :
    Follows ReopensTo (afterDocument? ts) (afterDocument? (ts.map reopen)) := by
  cases ts with
  | nil => exact Follows.some rfl
  | cons t ts =>
      cases t with
      | unreadable => exact Follows.none
      | _ => exact Follows.some rfl

theorem root?_reopened (handles : List (String × String)) (ts : List Token) :
    Follows (Beside ReopensTo) (root? handles ts) (root? handles (ts.map reopen)) := by
  unfold root?
  rw [List.length_map]
  refine Follows.bind ((allReopen _).node true false { tokens := ts, handles }) ?_
  rintro ⟨node, s⟩ ⟨node', s'⟩ ⟨hnode, hs⟩
  obtain rfl : node = node' := hnode
  obtain rfl : s' = s.reopened := hs
  exact Follows.bind (afterDocument?_reopened s.tokens) fun rest rest' hrest =>
    Follows.some ⟨rfl, hrest⟩

theorem markedRoot?_reopened (handles : List (String × String)) (ts : List Token) :
    Follows (Beside ReopensTo) (markedRoot? handles ts) (markedRoot? handles (ts.map reopen)) := by
  have hmissing : Follows (Beside ReopensTo)
      ((afterDocument? ts).map (Document.ofRoot .missing, ·))
      ((afterDocument? (ts.map reopen)).map (Document.ofRoot .missing, ·)) :=
    Follows.map (afterDocument?_reopened ts) fun _ _ hrest => ⟨rfl, hrest⟩
  have hroot := root?_reopened handles ts
  cases ts with
  | nil => exact hroot
  | cons t ts =>
      cases t with
      | version _ _ => exact hmissing
      | tagDirective _ _ => exact hmissing
      | documentStart => exact hmissing
      | documentEnd => exact hmissing
      | streamEnd => exact hmissing
      | _ => exact hroot

theorem directives?_reopened (d : Directives) (ts : List Token) :
    Follows (Beside ReopensTo) (directives? d ts) (directives? d (ts.map reopen)) := by
  induction ts generalizing d with
  | nil => exact Follows.some ⟨rfl, rfl⟩
  | cons t ts ih =>
      cases t with
      | version major minor => exact Follows.ite (fun _ => Follows.none) fun _ => ih _
      | tagDirective handle start => exact Follows.ite (fun _ => Follows.none) fun _ => ih _
      | _ => exact Follows.some ⟨rfl, rfl⟩

/-- What a reader takes at the end of the stream, it takes in front of a marker, whatever stands
behind the marker. -/
def ReadsAtEnd (f : List Token → Option (α × List Token)) (X : List Token) : Prop :=
  ∀ a rest, f (X ++ [.streamEnd]) = some (a, rest) →
    ∃ rest', rest = rest' ++ [.streamEnd] ∧ rest' <:+ X ∧
      ∀ behind, f (X ++ .documentStart :: behind) = some (a, rest' ++ .documentStart :: behind)

theorem map_reopen_end (hX : .streamEnd ∉ X) :
    (X ++ [Token.streamEnd]).map reopen = X ++ [.documentStart] := by
  have hkeep : X.map reopen = X := by
    refine (List.map_congr_left fun t ht => reopen_of_ne ?_).trans (List.map_id X)
    rintro rfl
    exact hX ht
  rw [List.map_append, hkeep]
  rfl

theorem readsAtEnd {f : List Token → Option (α × List Token)} (hX : .streamEnd ∉ X)
    (hreopen : ∀ ts, Follows (Beside ReopensTo) (f ts) (f (ts.map reopen)))
    (hbefore : ReadsBefore f X) (hsuffix : ∀ ts a rest, f ts = some (a, rest) → rest <:+ ts) :
    ReadsAtEnd f X := by
  intro a rest hread
  obtain ⟨⟨a', rest₁⟩, hlong, ha, hrest₁⟩ := hreopen _ _ hread
  obtain rfl : a = a' := ha
  obtain rfl : rest₁ = rest.map reopen := hrest₁
  rw [map_reopen_end hX] at hlong
  rcases hbefore with hnone | ⟨b, taken, rest', hsplit, -, hall⟩
  · rw [hnone []] at hlong
    exact absurd hlong (by simp)
  · obtain ⟨rfl, hmap⟩ := Prod.mk.inj (Option.some.inj ((hall []).symm.trans hlong))
    have hsuffix' : rest' ++ [.streamEnd] <:+ X ++ [.streamEnd] := by
      rw [hsplit, List.append_assoc]
      exact List.suffix_append _ _
    have hlength : rest.length = (rest' ++ [Token.streamEnd]).length := by
      have hmapped := congrArg List.length hmap
      rw [List.length_map] at hmapped
      rw [← hmapped, List.length_append, List.length_append]
      rfl
    refine ⟨rest', ?_, ⟨taken, hsplit.symm⟩, hall⟩
    -- two ends of one list that are of the same length are the same
    exact (List.suffix_of_suffix_length_le (hsuffix _ _ _ hread) hsuffix'
      (Nat.le_of_eq hlength)).eq_of_length hlength

theorem root?_atEnd (handles : List (String × String)) (hX : .streamEnd ∉ X) :
    ReadsAtEnd (root? handles) X :=
  readsAtEnd hX (root?_reopened handles) (root?_before handles X) fun _ _ _ => root?_suffix

theorem markedRoot?_atEnd (handles : List (String × String)) (hX : .streamEnd ∉ X) :
    ReadsAtEnd (markedRoot? handles) X :=
  readsAtEnd hX (markedRoot?_reopened handles) (markedRoot?_before handles hX)
    fun _ _ _ => markedRoot?_suffix

theorem directives?_atEnd (d : Directives) (hX : .streamEnd ∉ X) :
    ReadsAtEnd (directives? d) X :=
  readsAtEnd hX (directives?_reopened d) (directives?_before d X) fun _ _ _ => directives?_suffix

/-! ## All documents of a stream -/

def emptyDocument : Document := Document.ofRoot .missing

/-- With a marker in front of the end, the documents are the same and an empty one. -/
def GainsEmpty (short long : List (Option Document)) : Prop :=
  none ∉ short → long = short ++ [some emptyDocument]

theorem GainsEmpty.of_none (long : List (Option Document)) : GainsEmpty [none] long :=
  fun h => absurd (List.mem_singleton_self _) h

theorem gainsEmpty_proceed {f : List Token → Option (Document × List Token)}
    (hf : ReadsAtEnd f Y)
    (ih : ∀ rest, rest <:+ Y → GainsEmpty (documentsFrom false fuel (rest ++ [.streamEnd]))
      (documentsFrom false fuel' (rest ++ [.documentStart, .streamEnd]))) :
    GainsEmpty (proceed fuel (f (Y ++ [.streamEnd])))
      (proceed fuel' (f (Y ++ [.documentStart, .streamEnd]))) := by
  cases hread : f (Y ++ [.streamEnd]) with
  | none => exact GainsEmpty.of_none _
  | some p =>
      obtain ⟨d, rest⟩ := p
      obtain ⟨rest', rfl, hsuffix, hlong⟩ := hf d rest hread
      rw [hlong [.streamEnd]]
      intro hnone
      have hrest : none ∉ documentsFrom false fuel (rest' ++ [.streamEnd]) :=
        fun hmem => hnone (List.mem_cons_of_mem _ hmem)
      exact congrArg (some d :: ·) (ih rest' hsuffix hrest)

theorem gainsEmpty_directed (hY : .streamEnd ∉ Y)
    (ih : ∀ rest, rest <:+ Y → GainsEmpty (documentsFrom false fuel (rest ++ [.streamEnd]))
      (documentsFrom false fuel' (rest ++ [.documentStart, .streamEnd]))) :
    GainsEmpty (directed fuel (Y ++ [.streamEnd]))
      (directed fuel' (Y ++ [.documentStart, .streamEnd])) := by
  unfold directed
  cases hread : directives? {} (Y ++ [.streamEnd]) with
  | none => exact GainsEmpty.of_none _
  | some p =>
      obtain ⟨d, rest⟩ := p
      obtain ⟨rest', rfl, hsuffix, hlong⟩ := directives?_atEnd {} hY d rest hread
      rw [hlong [.streamEnd]]
      cases rest' with
      | nil => exact GainsEmpty.of_none _
      | cons t rest' =>
          cases t with
          | documentStart =>
              have hrest : rest' <:+ Y := (List.suffix_cons _ _).trans hsuffix
              exact gainsEmpty_proceed
                (markedRoot?_atEnd _ fun hmem => hY (hrest.subset hmem))
                fun rest hr => ih rest (hr.trans hrest)
          | _ => exact GainsEmpty.of_none _

theorem dropWhile_end (X : List Token) :
    (X ++ [Token.streamEnd]).dropWhile (· == .documentEnd) =
      X.dropWhile (· == .documentEnd) ++ [.streamEnd] := by
  induction X with
  | nil => rfl
  | cons t X ih =>
      by_cases ht : t = .documentEnd
      · simp [ht, ih]
      · simp [ht]

/-- **Where all documents can be read**, they are read in front of a marker too. -/
theorem gainsEmpty_documentsFrom (first : Bool) (hX : .streamEnd ∉ X) (hfuel : fuel < fuel') :
    GainsEmpty (documentsFrom first fuel (X ++ [.streamEnd]))
      (documentsFrom first fuel' (X ++ [.documentStart, .streamEnd])) := by
  induction fuel generalizing first X fuel' with
  | zero => exact GainsEmpty.of_none _
  | succ fuel ih =>
      obtain ⟨fuel', rfl⟩ : ∃ k, fuel' = k + 1 := ⟨fuel' - 1, by omega⟩
      -- tokens that end a document are skipped alike in both streams
      have hshort : (if first then X ++ [Token.streamEnd]
          else (X ++ [Token.streamEnd]).dropWhile (· == .documentEnd)) =
            (if first then X else X.dropWhile (· == .documentEnd)) ++ [.streamEnd] := by
        cases first
        · exact dropWhile_end X
        · rfl
      have hlong : (if first then X ++ [Token.documentStart, .streamEnd]
          else (X ++ [Token.documentStart, .streamEnd]).dropWhile (· == .documentEnd)) =
            (if first then X else X.dropWhile (· == .documentEnd)) ++
              [.documentStart, .streamEnd] := by
        cases first
        · exact dropWhile_before X [.streamEnd]
        · rfl
      have hsuffix : (if first then X else X.dropWhile (· == .documentEnd)) <:+ X := by
        cases first
        · exact List.dropWhile_suffix _
        · exact List.suffix_refl _
      unfold documentsFrom
      dsimp only
      rw [hshort, hlong]
      generalize (if first then X else X.dropWhile (· == .documentEnd)) = Y at hsuffix
      have hY : .streamEnd ∉ Y := fun hmem => hX (hsuffix.subset hmem)
      have hnext : ∀ rest, rest <:+ Y →
          GainsEmpty (documentsFrom false fuel (rest ++ [.streamEnd]))
            (documentsFrom false fuel' (rest ++ [.documentStart, .streamEnd])) :=
        fun rest hrest => ih false (fun hmem => hY (hrest.subset hmem)) (by omega)
      have hdirected := gainsEmpty_directed hY hnext
      -- the first token tells a document with directives from one without
      cases Y with
      | nil =>
          obtain ⟨fuel', rfl⟩ : ∃ k, fuel' = k + 1 := ⟨fuel' - 1, by omega⟩
          exact fun _ => rfl
      | cons t Y =>
          cases t with
          | streamEnd => exact absurd (List.mem_cons_self ..) hY
          | unreadable => exact GainsEmpty.of_none _
          | version _ _ => exact hdirected
          | tagDirective _ _ => exact hdirected
          | documentStart => exact hdirected
          | _ =>
              cases first with
              | true => exact gainsEmpty_proceed (root?_atEnd defaultHandles hY) hnext
              | false => exact GainsEmpty.of_none _

/-! ## The documents of a text -/

/-- No bracket is left open where all documents can be read. -/
theorem depthAfter_of_readable (hX : .streamEnd ∉ X)
    (hread : none ∉ documentsFrom true fuel (X ++ [.streamEnd])) : depthAfter 0 X = 0 := by
  rcases beforeMarker_start X hX with ⟨ds, hfault⟩ | ⟨ds, handles, hdepth, -⟩
  · have hlong := gainsEmpty_documentsFrom true hX (by omega : fuel < fuel + X.length + 2) hread
    have hlast := (hfault [.streamEnd] _ (by omega)).symm.trans hlong
    exact absurd (List.append_inj_right' hlast rfl) (by simp)
  · exact hdepth

/-- **The documents with a marker behind**: where all documents of a text can be read, they are the
same with the line of a marker behind it, and an empty one comes after them, or the text gains a
line end. Where there are none, the empty one is the only one. -/
theorem documents_marked_of_readable {text : List Char} (hread : none ∉ documents text) :
    GainsLineEnd text ∨
      documents (marked text) = documents text ++ [some emptyDocument] ∨
      (documents text = [some { root := none }] ∧
        documents (marked text) = [some emptyDocument]) := by
  rcases tokens_streamEnd text with hunended | ⟨X, htokens, hX⟩
  · obtain ⟨ds, hds, -⟩ := documents_of_unended hunended
    rw [hds] at hread
    exact absurd (List.mem_append_right _ (List.mem_singleton_self _)) hread
  have hcases := documents_cases text
  rw [htokens] at hcases
  have hfrom : none ∉
      documentsFrom true ((X ++ [Token.streamEnd]).length + 1) (X ++ [.streamEnd]) := by
    rcases hcases with ⟨hnil, -⟩ | hsame
    · rw [hnil]
      exact List.not_mem_nil
    · rwa [← hsame]
  rcases tokens_marked_of_end htokens (depthAfter_of_readable hX hfrom) with hmarked | hgains
  · refine Or.inr ?_
    have hlength : (X ++ [Token.streamEnd]).length + 1 < (tokens (marked text)).length + 1 := by
      rw [hmarked, List.length_append, List.length_append]
      simp
    have hlong := gainsEmpty_documentsFrom true hX hlength hfrom
    rw [← hmarked] at hlong
    have hmarked' := documents_of_append (List.cons_ne_nil _ _) hlong
    rw [hmarked']
    rcases hcases with ⟨hnil, hempty⟩ | hsame
    · exact Or.inr ⟨hempty, by rw [hnil]; rfl⟩
    · exact Or.inl (by rw [hsame])
  · exact Or.inl hgains

end SourceEdit.Yaml
