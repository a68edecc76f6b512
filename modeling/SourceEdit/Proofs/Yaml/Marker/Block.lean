import SourceEdit.Proofs.Yaml.Marker.Quoted
import SourceEdit.Yaml.Token.Block

/-!
# Block scalars in front of a marker

The lines of a block scalar are indented by at least one blank, so a block scalar that begins in
front of a marker ends there at the latest.
-/

namespace SourceEdit.Yaml

variable {c : Cursor} {more : List Char} {indent : Nat}

open Cursor (Ahead extend extend_length_le agrees_place agrees_farPlace)

/-! ## The header -/

def headerDigit? (h : BlockHeader) (c : Cursor) : Option (BlockHeader × Cursor) :=
  match c.peek with
  | some d =>
    if d.isDigit then
      if d == '0' then none else some ({ h with indent? := some (d.toNat - 48) }, c.skip)
    else some (h, c)
  | none => some (h, c)

theorem blockHeader?_eq (c : Cursor) : blockHeader? c =
    match c.peek.bind chompingOf? with
    | some chomping => headerDigit? { chomping } c.skip
    | none =>
      (headerDigit? {} c).bind fun r =>
        if r.1.indent?.isNone then some (r.1, r.2)
        else
          match r.2.peek.bind chompingOf? with
          | some chomping => some ({ r.1 with chomping }, r.2.skip)
          | none => some (r.1, r.2) := rfl

theorem isBreak_of_isDigit {d : Char} (h : d.isDigit = true) : isBreak d = false := by
  rw [Bool.eq_false_iff]
  intro hbreak
  simp only [isBreak, Bool.or_eq_true, beq_iff_eq, or_assoc] at hbreak
  rcases hbreak with rfl | rfl | rfl | rfl | rfl <;> exact absurd h (by decide)

theorem headerDigit?_agrees {b : BlockHeader} (h : c.Inside) :
    Agrees (Prod.map id (extend more)) (fun r => r.2.Inside ∧ Ahead 0 c r.2)
      (headerDigit? b c) (headerDigit? b (c.extend more)) := by
  unfold headerDigit?
  rw [h.before.peek_extend, h.skip_extend]
  cases hd : c.peek with
  | none => exact agrees_place ⟨h, Ahead.refl⟩
  | some d =>
      refine Agrees.ite (fun hdigit => ?_) fun _ => agrees_place ⟨h, Ahead.refl⟩
      refine Agrees.ite (fun _ => Agrees.none) fun _ => ?_
      exact agrees_place ⟨h.skip hd (isBreak_of_isDigit hdigit), h.ahead_skip.weaken (by decide)⟩

/-- The indicator of chomping does not end a line. -/
theorem skip_of_chomping (h : c.Inside) {k : Chomping} (hk : c.peek.bind chompingOf? = some k) :
    c.skip.Inside := by
  obtain ⟨x, hx, hchomping⟩ := Option.bind_eq_some_iff.mp hk
  refine h.skip hx ?_
  unfold chompingOf? at hchomping
  split at hchomping
  · decide
  · decide
  · exact absurd hchomping (by simp)

theorem blockHeader?_agrees (h : c.Inside) :
    Agrees (Prod.map id (extend more)) (fun r => r.2.Inside ∧ Ahead 0 c r.2)
      (blockHeader? c) (blockHeader? (c.extend more)) := by
  rw [blockHeader?_eq, blockHeader?_eq, h.before.peek_extend, h.skip_extend]
  cases hk : c.peek.bind chompingOf? with
  | some k =>
      refine (headerDigit?_agrees (skip_of_chomping h hk)).mono ?_
      rintro r ⟨hr, hahead⟩
      exact ⟨hr, (h.ahead_skip.trans hahead).weaken (by decide)⟩
  | none =>
      refine Agrees.bind (headerDigit?_agrees h) ?_
      rintro ⟨b, c'⟩ ⟨hinside, hahead⟩
      dsimp only at hinside hahead
      simp only [Prod.map, id, hinside.before.peek_extend, hinside.skip_extend]
      refine Agrees.ite (fun _ => agrees_place ⟨hinside, hahead⟩) fun _ => ?_
      cases hk' : c'.peek.bind chompingOf? with
      | some k =>
          exact agrees_place ⟨skip_of_chomping hinside hk',
            (hahead.trans hinside.ahead_skip).weaken (by decide)⟩
      | none => exact agrees_place ⟨hinside, hahead⟩

/-! ## Indentation and empty lines -/

/-- The length of the indentation here, at most up to the column of the block. -/
def blockIndentation (indent : Nat) (c : Cursor) : Nat :=
  ((c.rest.take (if indent = 0 then c.rest.length else indent - c.column)).takeWhile
    (· == ' ')).length

theorem blockGap_succ (indent deepest fuel : Nat) (breaks : List Char) (c : Cursor) :
    blockGap indent deepest breaks (fuel + 1) c =
      let c := c.skipMany (blockIndentation indent c)
      let deepest := max deepest c.column
      if (indent = 0 || c.column < indent) && c.peek == some '\t' then none
      else if c.peek.any isBreak then
        blockGap indent deepest (c.breakText.reverse ++ breaks) fuel c.skipBreak
      else some (breaks, deepest, c) := rfl

theorem takeWhile_take_lineEnd {p : Char → Bool} (hp : p '\n' = false) (n : Nat)
    (r t : List Char) : ((r ++ '\n' :: t).take n).takeWhile p = (r.take n).takeWhile p := by
  by_cases hn : n ≤ r.length
  · rw [List.take_append_of_le_length hn]
  · obtain ⟨k, hk⟩ : ∃ k, n - r.length = k + 1 := ⟨n - r.length - 1, by omega⟩
    rw [List.take_append, hk, List.take_succ_cons, Cursor.takeWhile_lineEnd hp]

theorem blockIndentation_lineEnd {r t : List Char} (h : c.rest = r ++ '\n' :: t) :
    blockIndentation indent c =
      ((r.take (if indent = 0 then r.length else indent - c.column)).takeWhile
        (· == ' ')).length := by
  rw [blockIndentation, h, takeWhile_take_lineEnd (by decide)]
  split
  · rw [List.take_length, List.take_of_length_le]
    rw [List.length_append]
    exact Nat.le_add_right _ _
  · rfl

theorem blockIndentation_dash {t : List Char} (h : c.rest = '-' :: t) :
    blockIndentation indent c = 0 := by
  rw [blockIndentation, h]
  cases (if indent = 0 then ('-' :: t).length else indent - c.column) with
  | zero => rfl
  | succ n => rfl

theorem blockIndentation_agrees (indent : Nat) (more : List Char) (h : c.Before) :
    (c.skipMany (blockIndentation indent c)).Before ∧
      Ahead 0 c (c.skipMany (blockIndentation indent c)) ∧
      (c.extend more).skipMany (blockIndentation indent (c.extend more)) =
        (c.skipMany (blockIndentation indent c)).extend more := by
  rcases h with ⟨r, hr⟩ | ⟨hrest, hcolumn⟩
  · have hlong : (c.extend more).rest = r ++ '\n' :: (markerLine ++ more) := by
      rw [extend, hr, List.append_assoc]
      rfl
    have hsame : blockIndentation indent (c.extend more) = blockIndentation indent c := by
      rw [blockIndentation_lineEnd hr, blockIndentation_lineEnd hlong]
      rfl
    have hle : blockIndentation indent c ≤ r.length := by
      rw [blockIndentation_lineEnd hr]
      exact Nat.le_trans (Cursor.length_takeWhile_le _) (List.length_take_le' _ _)
    rw [hsame]
    obtain ⟨hinside, hahead, heq⟩ := Cursor.inside_skipMany more hr hle
    exact ⟨hinside.before, hahead.weaken (Nat.zero_le _), heq⟩
  · have hlong : (c.extend more).rest = '-' :: ('-' :: '-' :: '\n' :: more) := by
      rw [extend, hrest]
      rfl
    rw [blockIndentation_dash hrest, blockIndentation_dash hlong]
    exact ⟨Or.inr ⟨hrest, hcolumn⟩, Ahead.refl, rfl⟩

theorem blockGap_agrees {fuel fuel' deepest : Nat} {breaks : List Char} (h : c.Before)
    (hfuel : c.rest.length < fuel) (hfuel' : c.rest.length < fuel') :
    Agrees (Prod.map id (Prod.map id (extend more))) (fun r => r.2.2.Before ∧ Ahead 0 c r.2.2)
      (blockGap indent deepest breaks fuel c)
      (blockGap indent deepest breaks fuel' (c.extend more)) := by
  induction fuel generalizing c deepest breaks fuel' with
  | zero => exact absurd hfuel (Nat.not_lt_zero _)
  | succ fuel ih =>
      obtain ⟨fuel', rfl⟩ : ∃ k, fuel' = k + 1 := ⟨fuel' - 1, by omega⟩
      obtain ⟨hbefore, hahead, heq⟩ := blockIndentation_agrees indent more h
      rw [blockGap_succ, blockGap_succ, heq]
      generalize c.skipMany (blockIndentation indent c) = c₁ at hbefore hahead
      dsimp only
      rw [hbefore.peek_extend, hbefore.breakText_extend]
      refine Agrees.ite (fun _ => Agrees.none) fun _ => ?_
      refine Agrees.ite (fun hbreak => ?_) fun _ => agrees_farPlace ⟨hbefore, hahead⟩
      rw [Option.any_eq_true] at hbreak
      obtain ⟨x, hx, hbreak⟩ := hbreak
      have hinside := hbefore.inside_of_gap hx (by rw [hbreak, Bool.or_true])
      have hmore : Ahead 1 c c₁.skipBreak :=
        (hahead.trans (hinside.ahead_skipBreak_of_isBreak hx hbreak)).weaken (by decide)
      have hlength := hmore.length
      rw [hinside.skipBreak_extend]
      refine (ih hinside.skipBreak (by omega) (by omega)).mono ?_
      rintro r ⟨hr, hr'⟩
      exact ⟨hr, (hmore.trans hr').weaken (by decide)⟩

/-! ## Lines of text -/

theorem blockLines_agrees {fuel fuel' : Nat} {folded : Bool} {b : BlockText} (h : c.Before)
    (hindent : 0 < indent) (hfuel : c.rest.length < fuel) (hfuel' : c.rest.length < fuel') :
    Agrees (Prod.map id (extend more)) (fun r => r.2.Before ∧ Ahead 0 c r.2)
      (blockLines folded indent b fuel c) (blockLines folded indent b fuel' (c.extend more)) := by
  induction fuel generalizing c b fuel' with
  | zero => exact absurd hfuel (Nat.not_lt_zero _)
  | succ fuel ih =>
      obtain ⟨fuel', rfl⟩ : ∃ k, fuel' = k + 1 := ⟨fuel' - 1, by omega⟩
      rw [blockLines, blockLines, h.peek_extend]
      refine Agrees.ite (fun _ => agrees_place ⟨h, Ahead.refl⟩) fun hline => ?_
      -- the line between the documents starts in column 0, where no line of the block does
      have hinside : c.Inside := by
        rcases h with h | ⟨-, hcolumn⟩
        · exact h
        · refine absurd ?_ hline
          rw [hcolumn, Bool.or_eq_true, bne_iff_ne]
          exact Or.inl (Nat.ne_of_lt hindent)
      have hend := hinside.skipWhile (p := fun x => !isBreak x) (by decide)
      obtain ⟨x, hx, hbreak⟩ := hinside.peek_skipWhile (p := fun x => !isBreak x) (by decide)
      have hahead := Cursor.ahead_skipWhile (c := c) (p := fun x => !isBreak x)
      dsimp only
      rw [hinside.spanText_extend (by decide), hinside.skipWhile_extend (by decide)]
      generalize c.skipWhile (fun x => !isBreak x) = c₁ at hend hx hahead
      have hskip : Ahead 1 c c₁.skipBreak := by
        refine (hahead.trans (hend.ahead_skipBreak_of_isBreak hx ?_)).weaken (by omega)
        rw [Bool.not_eq_false'] at hbreak
        exact hbreak
      rw [hend.before.breakText_extend, hend.skipBreak_extend]
      have hshort := hend.ahead_skipBreak.length
      have hmore : c₁.rest.length ≤ (c₁.extend more).rest.length := extend_length_le
      have hgap : Agrees (Prod.map id (Prod.map id (extend more)))
          (fun r => r.2.2.Before ∧ Ahead 0 c₁.skipBreak r.2.2)
          (blockGap indent 0 [] (c₁.rest.length + 2) c₁.skipBreak)
          (blockGap indent 0 [] ((c₁.extend more).rest.length + 2) (c₁.skipBreak.extend more)) :=
        blockGap_agrees hend.skipBreak (by omega) (by omega)
      rw [hgap.1]
      cases hread : blockGap indent 0 [] (c₁.rest.length + 2) c₁.skipBreak with
      | none => exact Agrees.none
      | some r =>
          obtain ⟨breaks, deepest, c₂⟩ := r
          obtain ⟨hbefore, hahead'⟩ := hgap.2 _ hread
          dsimp only at hbefore hahead'
          have hall : Ahead 1 c c₂ := hskip.trans hahead'
          have hlength := hall.length
          refine (ih hbefore (by omega) (by omega)).mono ?_
          rintro r ⟨hr, hr'⟩
          exact ⟨hr, (hall.trans hr').weaken (by decide)⟩

/-- A block scalar ends in front of the marker or at it. -/
theorem block?_agrees {folded : Bool} {parent : Option Nat} {x : Char} (h : c.Inside)
    (hx : c.peek = some x) (hbreak : isBreak x = false) :
    Agrees (Prod.map id (extend more)) (fun r => r.2.Before ∧ Ahead 1 c r.2)
      (block? folded parent c) (block? folded parent (c.extend more)) := by
  unfold block?
  rw [h.skip_extend]
  refine Agrees.bind (blockHeader?_agrees (h.skip hx hbreak)) ?_
  rintro ⟨header, c₁⟩ ⟨hheader, hahead₁⟩
  refine Agrees.bind hheader.finishLine? fun c₂ hline => ?_
  obtain ⟨hbefore₂, hahead₂⟩ := hline
  dsimp only at hahead₁ hahead₂ ⊢
  have hmore₂ : c₂.rest.length ≤ (c₂.extend more).rest.length := extend_length_le
  refine Agrees.bind (blockGap_agrees hbefore₂ (by omega) (by omega)) ?_
  rintro ⟨breaks, deepest, c₃⟩ ⟨hbefore₃, hahead₃⟩
  dsimp only [Prod.map, id] at hbefore₃ hahead₃ ⊢
  have hmore₃ : c₃.rest.length ≤ (c₃.extend more).rest.length := extend_length_le
  have hpos : ∀ given deepest : Nat, 0 < if given = 0 then max deepest 1 else given := by
    intro given deepest
    split <;> omega
  refine Agrees.bind (blockLines_agrees hbefore₃ (hpos _ _) (by omega) (by omega)) ?_
  rintro ⟨b, c₄⟩ ⟨hbefore₄, hahead₄⟩
  refine agrees_place ⟨hbefore₄, ?_⟩
  exact ((((h.ahead_skip.trans hahead₁).trans hahead₂).trans hahead₃).trans hahead₄).weaken
    (by decide)

end SourceEdit.Yaml
