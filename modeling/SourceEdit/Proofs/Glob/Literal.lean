import SourceEdit.Proofs.Glob.Scope

/-!
# Globs around a literal text

A text without characters that mean anything in a glob is read character by character, slashes
included, and stands for its bytes and nothing else. With `**` in front, behind, or on both sides
of it, it stands for the text wherever it begins and ends at parts of a path. The four globs
together match a path exactly if the parts of the text occur among those of the path, one after
another (`exists_around_isMatch_iff`).
-/

namespace SourceEdit.Glob

open ReaderState

def IsLiteralChar (c : Char) : Prop :=
  c ∉ ['*', '?', '[', ']', '\x7b', '\x7d', '\\']

def IsLiteral (cs : List Char) : Prop := ∀ c ∈ cs, IsLiteralChar c

instance (c : Char) : Decidable (IsLiteralChar c) :=
  inferInstanceAs (Decidable (c ∉ _))

instance (cs : List Char) : Decidable (IsLiteral cs) :=
  List.decidableBAll IsLiteralChar cs

/-! ## Reading -/

theorem step_literal {c : Char} (hc : IsLiteralChar c) (current : List Token) (last : Option Char)
    (cs : List Char) :
    (place current last).step false c cs = .ok (place (.literal c :: current) (some c), cs) := by
  simp only [IsLiteralChar, List.mem_cons, List.not_mem_nil, or_false, not_or] at hc
  obtain ⟨hstar, hany, hopen, -, hbrace, hclose, hescape⟩ := hc
  have htoken : partToken c = .literal c := by rw [partToken, if_neg hstar, if_neg hany]
  rw [← htoken]
  refine step_place ?_ hstar current last cs
  by_cases hslash : c = '/'
  · exact .inl hslash
  · exact .inr ⟨hslash, hopen, hbrace, hclose, hescape⟩

def lastOf (last : Option Char) (cs : List Char) : Option Char :=
  cs.foldl (fun _ c => some c) last

theorem reads_literal {cs : List Char} (hcs : IsLiteral cs) (current : List Token)
    (last : Option Char) (rest : List Char) :
    Reads (place current last) cs rest
      (place ((cs.map Token.literal).reverse ++ current) (lastOf last cs)) := by
  induction cs generalizing current last with
  | nil => exact Reads.refl _ rest
  | cons c cs ih =>
      have hfirst : Reads (place current last) [c] (cs ++ rest)
          (place (.literal c :: current) (some c)) :=
        Reads.of_step (step_literal (hcs c (by simp)) current last _)
      have hmore := ih (fun d hd => hcs d (List.mem_cons_of_mem _ hd)) (.literal c :: current)
        (some c)
      simpa [lastOf] using hfirst.trans hmore

theorem isStep_anyParts : IsStep anyParts := by decide

theorem isLiteral_concat_slash {cs : List Char} (hcs : IsLiteral cs) : IsLiteral (cs ++ ['/']) := by
  intro c hc
  rcases List.mem_append.mp hc with hc | hc
  · exact hcs c hc
  · rw [List.mem_singleton.mp hc]
    decide

/-- A text with `**/` in front of it or `/**` behind it, or both. -/
def aroundText (front back : Bool) (cs : List Char) : List Char :=
  (if front then anyParts ++ ['/'] else []) ++ (cs ++ if back then '/' :: anyParts else [])

def aroundTokens (front back : Bool) (cs : List Char) : List Token :=
  (if front then [.leadingDirs] else []) ++
    (cs.map .literal ++ if back then [.trailingDirs] else [])

theorem reads_front (front : Bool) (rest : List Char) :
    ∃ last, Reads (place [] none) (if front then anyParts ++ ['/'] else []) rest
      (place (if front then [.leadingDirs] else []) last) := by
  cases front with
  | false => exact ⟨none, Reads.refl _ rest⟩
  | true =>
      refine ⟨some '/', reads_step isStep_anyParts (fun h => ?_) rest⟩
      exact absurd rfl h

theorem reads_back (back : Bool) {cs : List Char} (hcs : IsLiteral cs) (current : List Token)
    (last : Option Char) :
    ∃ last', Reads (place current last) (cs ++ if back then '/' :: anyParts else []) []
      (place ((cs.map Token.literal ++ if back then [Token.trailingDirs] else []).reverse ++
        current) last') := by
  cases back with
  | false => exact ⟨_, by simpa using reads_literal hcs current last []⟩
  | true =>
      have hfront := reads_literal (isLiteral_concat_slash hcs) current last anyParts
      have hslash : lastOf last (cs ++ ['/']) = some '/' := by simp [lastOf]
      rw [hslash] at hfront
      obtain ⟨last', hstars⟩ := reads_last isStep_anyParts (fun _ => rfl :
        ((cs ++ ['/']).map Token.literal).reverse ++ current ≠ [] → some '/' = some '/')
      refine ⟨last', ?_⟩
      have hlast : Reads (place (((cs ++ ['/']).map Token.literal).reverse ++ current) (some '/'))
          anyParts []
          (place (.trailingDirs :: ((cs.map Token.literal).reverse ++ current)) last') := by
        simpa [afterLast, afterTrailing] using hstars
      simpa using hfront.trans hlast

/-- **Reading** a literal text with stars around it. -/
theorem ofString_aroundText (withinParts front back : Bool) {cs : List Char} (hcs : IsLiteral cs) :
    Glob.ofString withinParts false (String.ofList (aroundText front back cs)) =
      .ok ⟨String.ofList (aroundText front back cs), withinParts, aroundTokens front back cs⟩ := by
  obtain ⟨last, hfront⟩ := reads_front front ((cs ++ if back then '/' :: anyParts else []) ++ [])
  obtain ⟨last', hback⟩ := reads_back back hcs (if front then [.leadingDirs] else []) last
  obtain ⟨fuel, -, heq⟩ := hfront.trans hback (aroundText front back cs).length (by
    rw [List.append_nil]
    rfl)
  have htokens : readTokens false (aroundText front back cs) =
      .ok (aroundTokens front back cs) := by
    rw [readTokens]
    show run false _ (place [] none) _ = _
    rw [List.append_nil] at heq
    rw [← aroundText] at heq
    rw [heq]
    unfold run aroundTokens
    cases front <;> simp [place]
  rw [Glob.ofString, String.toList_ofList, htokens]

/-! ## Meaning -/

/-- Tokens whose meaning does not depend on where wildcards end. -/
def IsFixed : Token → Prop
  | .literal _ | .leadingDirs | .trailingDirs | .innerDirs => True
  | _ => False

theorem nodeOf_of_fixed {ts : List Token} (h : ∀ t ∈ ts, IsFixed t) (withinParts : Bool) :
    nodeOf withinParts ts = nodeOf true ts := by
  induction ts with
  | nil => rfl
  | cons t ts ih =>
      rw [nodeOf, nodeOf, ih fun t ht => h t (List.mem_cons_of_mem _ ht)]
      congr 1
      have ht := h t (by simp)
      cases t with
      | literal c => rw [nodeOfToken, nodeOfToken]
      | leadingDirs => rw [nodeOfToken, nodeOfToken]
      | trailingDirs => rw [nodeOfToken, nodeOfToken]
      | innerDirs => rw [nodeOfToken, nodeOfToken]
      | any => exact ht.elim
      | star => exact ht.elim
      | cls negated ranges => exact ht.elim
      | alternates branches => exact ht.elim

/-- A glob of such tokens matches what they stand for, wherever wildcards end. -/
theorem isMatch_of_fixed {ts : List Token} (h : ∀ t ∈ ts, IsFixed t) (hts : ts ≠ [.leadingDirs])
    (text : String) (withinParts : Bool) (path : String) :
    isMatch ⟨text, withinParts, ts⟩ path = true ↔ TokensAccept ts (utf8 path.toList) := by
  rw [isMatch, Pattern.matchesWhole_iff_accepts, node_eq_nodeOf hts, nodeOf_of_fixed h,
    bytesOf_eq_utf8]
  exact Iff.rfl

theorem tokensAccept_literals {cs : List Char} {w : List Nat} :
    TokensAccept (cs.map Token.literal) w ↔ w = utf8 cs := by
  induction cs generalizing w with
  | nil => exact Iff.rfl
  | cons c cs ih =>
      rw [List.map_cons, tokensAccept_cons, ← List.singleton_append, utf8_append]
      constructor
      · rintro ⟨u, v, rfl, hu, hv⟩
        rw [tokenAccepts_literal.mp hu, ih.mp hv]
      · rintro rfl
        exact ⟨_, _, rfl, tokenAccepts_literal.mpr rfl, ih.mpr rfl⟩

theorem tokensAccept_front {front : Bool} {u : List Nat} (hu : IsBytes u) :
    TokensAccept (if front then [.leadingDirs] else []) u ↔
      u = [] ∨ front = true ∧ IsClosed u := by
  cases front with
  | false => simp
  | true =>
      rw [if_pos rfl, tokensAccept_singleton, tokenAccepts_leadingDirs hu]
      constructor
      · exact fun h => .inr ⟨rfl, h⟩
      · rintro (rfl | ⟨-, h⟩)
        · exact .inl rfl
        · exact h

theorem tokensAccept_back {back : Bool} {v : List Nat} (hv : IsBytes v) :
    TokensAccept (if back then [.trailingDirs] else []) v ↔
      if back then ∃ x, v = slashByte :: x else v = [] := by
  cases back with
  | false => exact Iff.rfl
  | true =>
      rw [if_pos rfl, if_pos rfl, tokensAccept_singleton, tokenAccepts_trailingDirs hv]

/-- Whether some bytes occur where a part begins and up to where one ends. -/
def OccursIn (needle w : List Nat) : Prop :=
  ∃ u v, w = u ++ (needle ++ v) ∧ IsClosed u ∧ (v = [] ∨ ∃ x, v = slashByte :: x)

/-- With or without stars on either side, a text stands for itself at any parts. -/
theorem exists_aroundTokens_iff {cs : List Char} {w : List Nat} (hw : IsBytes w) :
    (∃ front back, TokensAccept (aroundTokens front back cs) w) ↔ OccursIn (utf8 cs) w := by
  constructor
  · rintro ⟨front, back, h⟩
    obtain ⟨u, _, rfl, hu, h⟩ := tokensAccept_append.mp h
    obtain ⟨_, v, rfl, hcs, hv⟩ := tokensAccept_append.mp h
    obtain ⟨hbu, hbv⟩ := isBytes_append.mp hw
    rw [tokensAccept_literals] at hcs
    rw [tokensAccept_front hbu] at hu
    rw [tokensAccept_back (isBytes_append.mp hbv).2] at hv
    refine ⟨u, v, by rw [hcs], ?_, ?_⟩
    · rcases hu with rfl | ⟨-, hu⟩
      · exact .inl rfl
      · exact hu
    · cases back with
      | false => exact .inl hv
      | true => exact .inr hv
  · rintro ⟨u, v, rfl, hu, hv⟩
    obtain ⟨hbu, hbv⟩ := isBytes_append.mp hw
    have hfront : TokensAccept (if true then [.leadingDirs] else []) u :=
      (tokensAccept_front hbu).mpr (.inr ⟨rfl, hu⟩)
    obtain ⟨back, hback⟩ : ∃ back : Bool, if back then ∃ x, v = slashByte :: x else v = [] := by
      rcases hv with hv | hv
      · exact ⟨false, hv⟩
      · exact ⟨true, hv⟩
    refine ⟨true, back, tokensAccept_append.mpr ⟨u, _, rfl, hfront, ?_⟩⟩
    exact tokensAccept_append.mpr ⟨_, v, rfl, tokensAccept_literals.mpr rfl,
      (tokensAccept_back (isBytes_append.mp hbv).2).mpr hback⟩

/-- **Bytes of a text** occur at parts of a path exactly if its parts are a run of the path's. -/
theorem occursIn_iff_isInfix {cs ds : List Char} :
    OccursIn (utf8 cs) (utf8 ds) ↔ Text.fields '/' cs <:+: Text.fields '/' ds := by
  -- with a slash behind it, all that stands at parts is closed, and closed bytes tell the parts
  have hclosed : (Text.fields '/' cs <:+: Text.fields '/' ds) ↔ ∃ a b, AreParts a ∧ AreParts b ∧
      utf8 ds ++ [slashByte] = closed a ++ (utf8 cs ++ [slashByte]) ++ closed b := by
    rw [← closed_fields, ← closed_fields]
    constructor
    · rintro ⟨a, b, h⟩
      have hparts := areParts_fields ds
      rw [← h, List.map_append, List.map_append, areParts_append, areParts_append] at hparts
      refine ⟨a.map utf8, b.map utf8, hparts.1.1, hparts.2, ?_⟩
      rw [← closed_append, ← closed_append, ← List.map_append, ← List.map_append, h]
    · rintro ⟨a, b, ha, hb, h⟩
      rw [← closed_append, ← closed_append] at h
      have hall := areParts_append.mpr ⟨areParts_append.mpr ⟨ha, areParts_fields cs⟩, hb⟩
      obtain ⟨hsame, -⟩ := closed_append_inj (areParts_fields ds) hall
        (List.not_mem_nil (a := slashByte)) List.not_mem_nil
        (by rw [List.append_nil, List.append_nil]; exact h)
      obtain ⟨x, y, hxy, hx, rfl⟩ := List.map_eq_append_iff.mp hsame
      obtain ⟨z, c, rfl, rfl, hc⟩ := List.map_eq_append_iff.mp hx
      rw [List.map_injective_iff.mpr utf8_injective hc] at hxy
      exact ⟨z, y, hxy.symm⟩
  rw [hclosed]
  constructor
  · rintro ⟨u, v, h, hu, hv⟩
    obtain ⟨a, ha, rfl⟩ := isClosed_iff.mp hu
    rcases hv with rfl | ⟨x, rfl⟩
    · exact ⟨a, [], ha, fun _ hp => absurd hp List.not_mem_nil, by simp [h]⟩
    · obtain ⟨b, hb, hx⟩ := isClosed_iff.mp (.inr ⟨x, rfl⟩ : IsClosed (x ++ [slashByte]))
      exact ⟨a, b, ha, hb, by simp [h, ← hx]⟩
  · rintro ⟨a, b, ha, hb, h⟩
    rcases isClosed_iff.mpr ⟨b, hb, rfl⟩ with hnil | ⟨x, hx⟩
    · refine ⟨closed a, [], ?_, isClosed_iff.mpr ⟨a, ha, rfl⟩, .inl rfl⟩
      rw [hnil, List.append_nil, ← List.append_assoc] at h
      rw [List.append_nil, List.append_cancel_right h]
    · refine ⟨closed a, slashByte :: x, ?_, isClosed_iff.mpr ⟨a, ha, rfl⟩, .inr ⟨x, rfl⟩⟩
      rw [hx, ← List.append_assoc] at h
      rw [List.append_cancel_right h]
      simp

/-- **Literal texts match runs of parts.** Of the four globs around a literal text, one matches a
path exactly if the parts of the text occur among those of the path one after another. -/
theorem exists_around_isMatch_iff {cs : List Char} (hne : cs ≠ []) (withinParts : Bool)
    (path : String) :
    (∃ front back, isMatch ⟨String.ofList (aroundText front back cs), withinParts,
        aroundTokens front back cs⟩ path = true) ↔
      Text.fields '/' cs <:+: Text.fields '/' path.toList := by
  rw [← occursIn_iff_isInfix, ← exists_aroundTokens_iff (isBytes_utf8 path.toList)]
  refine exists_congr fun front => exists_congr fun back => isMatch_of_fixed ?_ ?_ _ _ path
  · intro t ht
    simp only [aroundTokens, List.mem_append, List.mem_map] at ht
    rcases ht with ht | ⟨c, -, rfl⟩ | ht
    · cases front with
      | false => exact absurd ht List.not_mem_nil
      | true => rw [List.mem_singleton.mp ht]; trivial
    · trivial
    · cases back with
      | false => exact absurd ht List.not_mem_nil
      | true => rw [List.mem_singleton.mp ht]; trivial
  · obtain ⟨c, cs, rfl⟩ := List.exists_cons_of_ne_nil hne
    intro heq
    have hmem : Token.literal c ∈ aroundTokens front back (c :: cs) := by simp [aroundTokens]
    rw [heq, List.mem_singleton] at hmem
    cases hmem

end SourceEdit.Glob
