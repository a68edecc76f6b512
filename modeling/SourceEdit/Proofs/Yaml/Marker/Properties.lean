import SourceEdit.Proofs.Yaml.Marker.Quoted
import SourceEdit.Yaml.Token.Properties

/-!
# Properties and directives in front of a marker

Names, tags and directives do not go beyond the line on which they stand.
-/

namespace SourceEdit.Yaml

variable {c : Cursor} {more : List Char} {x : Char}

open Cursor (Ahead extend extend_length_le agrees_place)

/-- A condition that no line end satisfies. -/
theorem isBreak_eq_false_of {p : Char → Bool}
    (hp : ['\n', '\r', '\u0085', '\u2028', '\u2029'].any p = false) (hx : p x = true) :
    isBreak x = false := by
  rw [Bool.eq_false_iff]
  intro hbreak
  simp only [isBreak, Bool.or_eq_true, beq_iff_eq, or_assoc] at hbreak
  have hmem : x ∈ ['\n', '\r', '\u0085', '\u2028', '\u2029'] := by
    simpa using hbreak
  exact List.any_eq_false.mp hp x hmem hx

/-! ## Names -/

theorem anchorName?_agrees (h : c.Inside) (hx : c.peek = some x) (hbreak : isBreak x = false) :
    Agrees (Prod.map id (extend more)) (fun r => r.2.Inside ∧ Ahead 1 c r.2)
      (anchorName? c) (anchorName? (c.extend more)) := by
  have hskip := h.skip hx hbreak
  have hend := hskip.skipWhile (p := isNameChar) (by decide)
  unfold anchorName?
  dsimp only
  rw [h.skip_extend, hskip.spanText_extend (by decide), hskip.skipWhile_extend (by decide),
    hend.before.peek_extend]
  refine Agrees.ite (fun _ => Agrees.none) fun _ => agrees_place ⟨hend, ?_⟩
  exact (h.ahead_skip.trans Cursor.ahead_skipWhile).weaken (Nat.le_add_right _ _)

/-! ## Tags -/

theorem isBreak_of_isTagChar {verbatim : Bool} (hx : isTagChar verbatim x = true) :
    isBreak x = false :=
  isBreak_eq_false_of (by cases verbatim <;> decide) hx

/-- Bytes are read only where a percent sign with two digits stands. -/
theorem percentBytes?_eq_none {n : Nat} {cs : List Char}
    (h : ∀ a b rest, cs = '%' :: a :: b :: rest → Text.digit? 16 a = none ∨ Text.digit? 16 b = none) :
    percentBytes? (n + 1) cs = none := by
  unfold percentBytes?
  split
  · next heq => exact absurd heq (Nat.succ_ne_zero n)
  · next a b rest _ =>
    rcases h a b rest rfl with ha | hb
    · rw [ha]
      rfl
    · rw [hb]
      cases Text.digit? 16 a <;> rfl
  · rfl

theorem percentBytes?_lineEnd (n : Nat) (r t : List Char) :
    percentBytes? n (r ++ '\n' :: t) =
      (percentBytes? n r).map (Prod.map id (· ++ '\n' :: t)) := by
  induction n generalizing r with
  | zero => simp only [percentBytes?]; rfl
  | succ n ih =>
      -- a line end among the next three characters spoils the escape in both texts
      match r with
      | [] =>
          rw [percentBytes?_eq_none (by simp), percentBytes?_eq_none (by simp)]
          rfl
      | [x] =>
          rw [percentBytes?_eq_none, percentBytes?_eq_none (by simp)]
          · rfl
          · intro a b rest heq
            obtain ⟨-, rfl, -⟩ : x = '%' ∧ '\n' = a ∧ t = b :: rest := by simpa using heq
            exact Or.inl (by decide)
      | [x, y] =>
          rw [percentBytes?_eq_none, percentBytes?_eq_none (by simp)]
          · rfl
          · intro a b rest heq
            obtain ⟨-, -, rfl, -⟩ : x = '%' ∧ y = a ∧ '\n' = b ∧ t = rest := by simpa using heq
            exact Or.inr (by decide)
      | x :: y :: z :: r =>
          by_cases hx : x = '%'
          · obtain rfl := hx
            simp only [List.cons_append, percentBytes?]
            cases Text.digit? 16 y with
            | none => rfl
            | some a =>
                cases Text.digit? 16 z with
                | none => rfl
                | some b =>
                    simp only [ih r, Option.bind_eq_bind, Option.bind_some]
                    cases percentBytes? n r <;> rfl
          · rw [percentBytes?_eq_none (by simp [hx]), percentBytes?_eq_none (by simp [hx])]
            rfl

theorem length_of_percentBytes? {n : Nat} {r rest : List Char} {bytes : List Nat}
    (h : percentBytes? n r = some (bytes, rest)) : rest.length + n ≤ r.length := by
  induction n generalizing r bytes with
  | zero =>
      simp only [percentBytes?, Option.some.injEq, Prod.mk.injEq] at h
      rw [h.2]
      exact Nat.le_refl _
  | succ n ih =>
      by_cases hhead : ∃ a b cs, r = '%' :: a :: b :: cs
      · obtain ⟨a, b, cs, rfl⟩ := hhead
        simp only [percentBytes?] at h
        obtain ⟨x, -, h⟩ := Option.bind_eq_some_iff.mp h
        obtain ⟨y, -, h⟩ := Option.bind_eq_some_iff.mp h
        obtain ⟨⟨more, rest'⟩, hread, h⟩ := Option.bind_eq_some_iff.mp h
        obtain ⟨-, rfl⟩ := Prod.mk.inj (Option.some.inj h)
        have hlength : rest'.length + n ≤ cs.length := ih hread
        show rest'.length + (n + 1) ≤ cs.length + 3
        omega
      · rw [percentBytes?_eq_none fun a b cs heq => absurd ⟨a, b, cs, heq⟩ hhead] at h
        exact absurd h (by simp)

theorem percentChar?_lineEnd (r t : List Char) :
    percentChar? (r ++ '\n' :: t) = (percentChar? r).map (Prod.map id (· ++ '\n' :: t)) := by
  unfold percentChar?
  rw [percentBytes?_lineEnd]
  cases percentBytes? 1 r with
  | none => rfl
  | some first =>
      simp only [Option.map_some, Option.bind_eq_bind, Option.bind_some, Prod.map, id]
      cases encodedLength? (first.1.headD 0) with
      | none => rfl
      | some n =>
          rw [Option.bind_some, Option.bind_some, percentBytes?_lineEnd]
          cases percentBytes? n r with
          | none => rfl
          | some p =>
              simp only [Option.map_some, Option.bind_some, Prod.map, id]
              split <;> rfl

theorem length_of_percentChar? {r rest chars : List Char}
    (h : percentChar? r = some (chars, rest)) : rest.length < r.length := by
  unfold percentChar? at h
  obtain ⟨first, -, h⟩ := Option.bind_eq_some_iff.mp h
  obtain ⟨n, hn, h⟩ := Option.bind_eq_some_iff.mp h
  obtain ⟨⟨bytes, rest'⟩, hread, h⟩ := Option.bind_eq_some_iff.mp h
  have hpos : 0 < n := by
    unfold encodedLength? at hn
    split at hn
    · obtain rfl := Option.some.inj hn; decide
    split at hn
    · obtain rfl := Option.some.inj hn; decide
    split at hn
    · obtain rfl := Option.some.inj hn; decide
    split at hn
    · obtain rfl := Option.some.inj hn; decide
    · exact absurd hn (by simp)
  have hlength := length_of_percentBytes? hread
  dsimp only at h
  split at h
  · obtain ⟨-, rfl⟩ := Prod.mk.inj (Option.some.inj h)
    omega
  · exact absurd h (by simp)

theorem tagText?_agrees {verbatim : Bool} {fuel fuel' : Nat} (h : c.Inside)
    (hfuel : c.rest.length < fuel) (hfuel' : c.rest.length < fuel') :
    Agrees (Prod.map id (extend more)) (fun r => r.2.Inside ∧ Ahead 0 c r.2)
      (tagText? verbatim fuel c) (tagText? verbatim fuel' (c.extend more)) := by
  induction fuel generalizing c fuel' with
  | zero => exact absurd hfuel (Nat.not_lt_zero _)
  | succ fuel ih =>
      obtain ⟨fuel', rfl⟩ : ∃ k, fuel' = k + 1 := ⟨fuel' - 1, by omega⟩
      obtain ⟨x, hx⟩ := h.before.peek_eq_some
      rw [tagText?, tagText?, h.before.peek_extend, hx]
      dsimp only
      refine Agrees.ite (fun htag => ?_) fun _ => agrees_place ⟨h, Ahead.refl⟩
      have hbreak := isBreak_of_isTagChar htag
      refine Agrees.ite (fun hpercent => ?_) fun _ => ?_
      · obtain ⟨r, hr⟩ := h
        have hlong : (c.extend more).rest = r ++ '\n' :: (markerLine ++ more) := by
          rw [extend, hr, List.append_assoc]
          rfl
        rw [hlong, hr, percentChar?_lineEnd, percentChar?_lineEnd]
        cases hread : percentChar? r with
        | none => exact Agrees.none
        | some p =>
            obtain ⟨chars, rest⟩ := p
            have hshorter := length_of_percentChar? hread
            -- the steps are counted from the end of the text, which adds the same to both lengths
            have hcount : ∀ t : List Char, (r ++ '\n' :: t).length - (rest ++ '\n' :: t).length =
                r.length - rest.length := by
              intro t
              simp only [List.length_append]
              omega
            obtain ⟨hinside, hahead, heq⟩ :=
              Cursor.inside_skipMany more hr (Nat.sub_le r.length rest.length)
            simp only [Option.map_some, Option.bind_eq_bind, Option.bind_some, Prod.map, id,
              hcount, heq]
            have hlength := hahead.length
            refine Agrees.bind (ih hinside (by omega) (by omega)) ?_
            rintro ⟨text, c'⟩ ⟨hinside', hahead'⟩
            exact agrees_place ⟨hinside', (hahead.trans hahead').weaken (Nat.zero_le _)⟩
      · rw [h.skip_extend]
        have hlength := h.ahead_skip.length
        refine Agrees.bind (ih (h.skip hx hbreak) (by omega) (by omega)) ?_
        rintro ⟨text, c'⟩ ⟨hinside, hahead⟩
        exact agrees_place ⟨hinside, (h.ahead_skip.trans hahead).weaken (by decide)⟩

theorem tagHandle?_agrees (h : c.Inside) :
    Agrees (Prod.map id (extend more)) (fun r => r.2.Inside ∧ Ahead 1 c r.2)
      (tagHandle? c) (tagHandle? (c.extend more)) := by
  unfold tagHandle?
  rw [h.before.peek_extend]
  refine Agrees.ite (fun _ => Agrees.none) fun hmark => ?_
  have hpeek : c.peek = some '!' := by
    exact Decidable.byContradiction fun hne => hmark (bne_iff_ne.mpr hne)
  have hskip := h.skip hpeek (by decide)
  have hend := hskip.skipWhile (p := isNameChar) (by decide)
  dsimp only
  rw [h.skip_extend, hskip.spanText_extend (by decide), hskip.skipWhile_extend (by decide),
    hend.before.peek_extend, hend.skip_extend]
  have hahead : Ahead 1 c (c.skip.skipWhile isNameChar) :=
    (h.ahead_skip.trans Cursor.ahead_skipWhile).weaken (Nat.le_add_right _ _)
  refine Agrees.ite (fun hclose => ?_) fun _ => agrees_place ⟨hend, hahead⟩
  rw [beq_iff_eq] at hclose
  exact agrees_place ⟨hend.skip hclose (by decide),
    (hahead.trans hend.ahead_skip).weaken (by decide)⟩

theorem tag?_agrees {flow : Bool} (h : c.Inside) (hx : c.peek = some '!') :
    Agrees (Prod.map id (extend more)) (fun r => r.2.Inside ∧ Ahead 1 c r.2)
      (tag? flow c) (tag? flow (c.extend more)) := by
  unfold tag?
  rw [h.before.peekAt_extend (by decide)]
  -- a tag between angle brackets, or one behind a handle
  refine Agrees.ite (fun hverbatim => ?_) fun _ => ?_
  · rw [beq_iff_eq, ← h.peek_skip] at hverbatim
    have hskip := h.skip hx (by decide)
    have hstart := hskip.skip hverbatim (by decide)
    have htwo : (c.extend more).skipMany 2 = (c.skipMany 2).extend more := by
      show (c.extend more).skip.skip = c.skip.skip.extend more
      rw [h.skip_extend, hskip.skip_extend]
    have hahead : Ahead 1 c (c.skipMany 2) :=
      (h.ahead_skip.trans hskip.ahead_skip).weaken (by decide)
    have hlength := hahead.length
    have hmore : c.rest.length ≤ (c.extend more).rest.length := extend_length_le
    rw [htwo]
    refine Agrees.bind (tagText?_agrees hstart (by omega) (by omega)) ?_
    rintro ⟨text, c'⟩ ⟨hinside, hahead'⟩
    dsimp only at hinside hahead'
    simp only [Prod.map, id, hinside.before.peek_extend, hinside.skip_extend,
      hinside.peek_skip_extend]
    refine Agrees.ite (fun _ => Agrees.none) fun hclosed => ?_
    have hclose : c'.peek = some '>' := by
      refine Decidable.byContradiction fun hne => hclosed ?_
      rw [bne_iff_ne.mpr hne, Bool.or_true, Bool.true_or]
    refine agrees_place ⟨hinside.skip hclose (by decide), ?_⟩
    exact ((hahead.trans hahead').trans hinside.ahead_skip).weaken (by decide)
  · refine Agrees.bind (tagHandle?_agrees h) ?_
    rintro ⟨handle, c₁⟩ ⟨hinside₁, hahead₁⟩
    dsimp only at hinside₁ hahead₁
    have hmore : c₁.rest.length ≤ (c₁.extend more).rest.length := extend_length_le
    dsimp only [Prod.map, id]
    refine Agrees.bind (tagText?_agrees hinside₁ (by omega) (by omega)) ?_
    rintro ⟨text, c₂⟩ ⟨hinside₂, hahead₂⟩
    dsimp only at hinside₂ hahead₂
    have hall : Ahead 1 c c₂ := hahead₁.trans hahead₂
    simp only [Prod.map, id, hinside₂.before.peek_extend]
    refine Agrees.ite (fun _ => Agrees.none) fun _ => ?_
    refine Agrees.ite (fun _ => ?_) fun _ => ?_
    · refine Agrees.ite (fun _ => Agrees.none) fun _ => agrees_place ⟨hinside₂, hall⟩
    · refine Agrees.ite (fun _ => ?_) fun _ => ?_
      · exact agrees_place ⟨hinside₂, hall⟩
      · exact agrees_place ⟨hinside₂, hall⟩

/-! ## Directives -/

theorem versionNumber?_agrees (h : c.Inside) :
    Agrees (Prod.map id (extend more)) (fun r => r.2.Inside ∧ Ahead 0 c r.2)
      (versionNumber? c) (versionNumber? (c.extend more)) := by
  unfold versionNumber?
  rw [h.spanText_extend (by decide), h.skipWhile_extend (by decide)]
  refine Agrees.ite (fun _ => Agrees.none) fun _ => ?_
  exact agrees_place ⟨h.skipWhile (by decide), Cursor.ahead_skipWhile.weaken (Nat.zero_le _)⟩

def versionDirective? (c : Cursor) : Option (Token × Cursor) :=
  (versionNumber? c).bind fun r =>
    if r.2.peek != some '.' then none
    else
      (versionNumber? r.2.skip).bind fun r' =>
        r'.2.finishLine?.bind fun c => some (.version r.1 r'.1, c)

def tagDirective? (c : Cursor) : Option (Token × Cursor) :=
  (tagHandle? c).bind fun r =>
    if r.1.length > 1 && r.1.getLast? != some '!' then none
    else if !r.2.peek.any isBlank then none
    else
      let c := r.2.skipWhile isBlank
      (tagText? true (c.rest.length + 1) c).bind fun r' =>
        if r'.1.isEmpty || !isBlankOrEnd r'.2.peek then none
        else
          r'.2.finishLine?.bind fun c =>
            some (.tagDirective (String.ofList r.1) (String.ofList r'.1), c)

theorem directive?_eq (c : Cursor) : directive? c =
    if !isBlankOrEnd (c.skip.skipWhile isNameChar).peek then none
    else
      let start := (c.skip.skipWhile isNameChar).skipWhile isBlank
      match String.ofList (c.skip.spanText isNameChar) with
      | "YAML" => versionDirective? start
      | "TAG" => tagDirective? start
      | _ => none := by
  unfold directive? versionDirective? tagDirective?
  rfl

theorem versionDirective?_agrees (h : c.Inside) :
    Agrees (Prod.map id (extend more)) (fun r => r.2.Before ∧ Ahead 0 c r.2)
      (versionDirective? c) (versionDirective? (c.extend more)) := by
  unfold versionDirective?
  refine Agrees.bind (versionNumber?_agrees h) ?_
  rintro ⟨major, c₁⟩ ⟨hinside₁, hahead₁⟩
  dsimp only at hinside₁ hahead₁
  simp only [Prod.map, id, hinside₁.before.peek_extend, hinside₁.skip_extend]
  refine Agrees.ite (fun _ => Agrees.none) fun hpoint => ?_
  have hpeek : c₁.peek = some '.' :=
    Decidable.byContradiction fun hne => hpoint (bne_iff_ne.mpr hne)
  refine Agrees.bind (versionNumber?_agrees (hinside₁.skip hpeek (by decide))) ?_
  rintro ⟨minor, c₂⟩ ⟨hinside₂, hahead₂⟩
  refine Agrees.bind hinside₂.finishLine? fun c₃ hline => ?_
  refine agrees_place ⟨hline.1, ?_⟩
  exact (((hahead₁.trans hinside₁.ahead_skip).trans hahead₂).trans hline.2).weaken (by decide)

theorem tagDirective?_agrees (h : c.Inside) :
    Agrees (Prod.map id (extend more)) (fun r => r.2.Before ∧ Ahead 0 c r.2)
      (tagDirective? c) (tagDirective? (c.extend more)) := by
  unfold tagDirective?
  refine Agrees.bind (tagHandle?_agrees h) ?_
  rintro ⟨handle, c₁⟩ ⟨hinside₁, hahead₁⟩
  dsimp only at hinside₁ hahead₁
  simp only [Prod.map, id, hinside₁.before.peek_extend,
    hinside₁.skipWhile_extend (p := isBlank) (by decide)]
  refine Agrees.ite (fun _ => Agrees.none) fun _ => ?_
  refine Agrees.ite (fun _ => Agrees.none) fun _ => ?_
  have hblank := hinside₁.skipWhile (p := isBlank) (by decide)
  have hmore : (c₁.skipWhile isBlank).rest.length ≤
      ((c₁.skipWhile isBlank).extend more).rest.length := extend_length_le
  refine Agrees.bind (tagText?_agrees hblank (by omega) (by omega)) ?_
  rintro ⟨text, c₂⟩ ⟨hinside₂, hahead₂⟩
  dsimp only at hinside₂ hahead₂
  simp only [Prod.map, id, hinside₂.before.peek_extend]
  refine Agrees.ite (fun _ => Agrees.none) fun _ => ?_
  refine Agrees.bind hinside₂.finishLine? fun c₃ hline => ?_
  refine agrees_place ⟨hline.1, ?_⟩
  exact (((hahead₁.trans Cursor.ahead_skipWhile).trans hahead₂).trans hline.2).weaken
    (Nat.zero_le _)

/-- A directive takes up its line, the one in front of the marker at the latest. -/
theorem directive?_agrees (h : c.Inside) (hx : c.peek = some '%') :
    Agrees (Prod.map id (extend more)) (fun r => r.2.Before ∧ Ahead 1 c r.2)
      (directive? c) (directive? (c.extend more)) := by
  have hskip := h.skip hx (by decide)
  have hname := hskip.skipWhile (p := isNameChar) (by decide)
  have hblank := hname.skipWhile (p := isBlank) (by decide)
  rw [directive?_eq, directive?_eq, h.skip_extend, hskip.skipWhile_extend (by decide),
    hskip.spanText_extend (by decide), hname.before.peek_extend]
  refine Agrees.ite (fun _ => Agrees.none) fun _ => ?_
  dsimp only
  rw [hname.skipWhile_extend (by decide)]
  have hstart : Ahead 1 c ((c.skip.skipWhile isNameChar).skipWhile isBlank) :=
    ((h.ahead_skip.trans Cursor.ahead_skipWhile).trans Cursor.ahead_skipWhile).weaken (by omega)
  have hrest : ∀ r : Token × Cursor, r.2.Before ∧
      Ahead 0 ((c.skip.skipWhile isNameChar).skipWhile isBlank) r.2 →
        r.2.Before ∧ Ahead 1 c r.2 := by
    rintro r ⟨hr, hahead⟩
    exact ⟨hr, hstart.trans hahead⟩
  split
  · exact (versionDirective?_agrees hblank).mono hrest
  · exact (tagDirective?_agrees hblank).mono hrest
  · exact Agrees.none

end SourceEdit.Yaml
