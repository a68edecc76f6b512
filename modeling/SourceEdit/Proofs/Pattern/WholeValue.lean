import SourceEdit.Pattern
import SourceEdit.Proofs.Pattern.Enclosed.Reader
import SourceEdit.Proofs.Pattern.Reach

/-!
# The anchored form of an expression

The anchors of a whole text are put around an expression as text. Read alone and read between the
anchors, an expression goes through the same states, except that one more group is open all
along (`step?_on`, `step?_within`). So the tree of the anchored form is that of the expression
between two anchors, unless a comment at the end of the expression takes the closing one with it
(`tree?_anchored`). Whenever both readings succeed, a match of the anchored form anywhere in a text
is a match of the expression from end to end (`isMatch_anchored`).
-/

namespace SourceEdit.Pattern

open Unicode (CodeSet)
open Outcome (Follows)

/-! ## One step -/

namespace ReaderState

def finalFlags (s : ReaderState) : Flags := (s.outer.getLastD s.current).outerFlags

variable {hash : Prop} {s s' : ReaderState} {cs more : List Char}

theorem outerFlags_getLastD {g g' : OpenGroup} (gs : List OpenGroup)
    (h : g'.outerFlags = g.outerFlags) :
    (gs.getLastD g').outerFlags = (gs.getLastD g).outerFlags := by
  cases gs with
  | nil => exact h
  | cons _ _ => rfl

theorem finalFlags_eq (houter : s'.outer = s.outer)
    (hcurrent : s'.current.outerFlags = s.current.outerFlags) : s'.finalFlags = s.finalFlags := by
  rw [finalFlags, finalFlags, houter]
  exact outerFlags_getLastD _ hcurrent

/-- A step where more text stands behind comes to the same state, and keeps the flags to return
to. -/
structure StepOn (hash : Prop) (s : ReaderState) (a b : ReaderState × List Char) : Prop where
  state : b.1 = a.1
  rest : Remains hash a.2 b.2
  flags : a.1.finalFlags = s.finalFlags

theorem repeated_on {lo : Nat} {hi : Option Nat} (h : Remains hash cs more) :
    Follows (StepOn hash s)
      ((s.current.repeatLast? lo hi).map fun g => ({ s with current := g }, dropPreference cs))
      ((s.current.repeatLast? lo hi).map fun g =>
        ({ s with current := g }, dropPreference more)) := by
  refine Follows.map (R := fun g g' => g' = g ∧ g.outerFlags = s.current.outerFlags) ?_ ?_
  · intro g hg
    refine ⟨g, hg, rfl, ?_⟩
    unfold OpenGroup.repeatLast? at hg
    split at hg
    · split at hg
      · rw [← Option.some.inj hg]
      · exact absurd hg (by simp)
    · exact absurd hg (by simp)
  · rintro g _ ⟨rfl, hflags⟩
    exact ⟨rfl, h.dropPreference, finalFlags_eq rfl hflags⟩

theorem push_on {node : Node CodeSet} {depth : Nat} (h : Remains hash cs more) :
    StepOn hash s (s.push node depth, cs) (s.push node depth, more) :=
  ⟨rfl, h, finalFlags_eq rfl rfl⟩

/-- **One step.** Where more text stands behind, the reader takes the same step. -/
theorem step?_on (h : Remains hash cs more) :
    Follows (StepOn hash s) (s.step? cs) (s.step? more) := by
  cases h with
  | closed => exact Follows.none
  | swallowed => exact Follows.none
  | cons c h hhash =>
      -- the characters in the order of the reader, a group and its end first
      simp only [step?]
      split
      · refine Follows.bind h.groupStart? ?_
        rintro ⟨start, rest⟩ ⟨_, left⟩ ⟨rfl, hleft⟩
        cases start with
        | setFlags f => exact Follows.some ⟨rfl, hleft, finalFlags_eq rfl rfl⟩
        | group f name =>
            refine Follows.ite (fun _ => Follows.none) fun _ => Follows.some ⟨rfl, hleft, ?_⟩
            exact congrArg OpenGroup.outerFlags List.getLastD_cons
      · cases houter : s.outer with
        | nil => exact Follows.none
        | cons parent outer =>
            refine Follows.some ⟨rfl, h, ?_⟩
            show (outer.getLastD (parent.push _)).outerFlags = _
            rw [finalFlags, houter, List.getLastD_cons]
            exact outerFlags_getLastD outer rfl
      · exact Follows.some ⟨rfl, h, finalFlags_eq rfl rfl⟩
      · refine Follows.bind h.bracket? ?_
        rintro ⟨set, depth, rest⟩ ⟨_, _, left⟩ ⟨rfl, rfl, hleft⟩
        exact Follows.some (push_on hleft)
      · exact repeated_on h
      · exact repeated_on h
      · exact repeated_on h
      · refine Follows.bind h.bounds? ?_
        rintro ⟨lo, hi, rest⟩ ⟨_, _, left⟩ ⟨rfl, rfl, hleft⟩
        exact repeated_on (hleft.skip _)
      · refine Follows.bind h.escape? ?_
        rintro ⟨e, rest⟩ ⟨_, left⟩ ⟨rfl, hleft⟩
        cases e with
        | literal d isByte =>
            exact Follows.bind_same fun leaf _ => Follows.some (push_on hleft)
        | set set => exact Follows.some (push_on hleft)
        | anchor a => exact Follows.some (push_on hleft)
      · exact (Follows.same fun _ => rfl).map fun _ _ heq => heq ▸ push_on h
      · exact Follows.some (push_on h)
      · exact Follows.some (push_on h)
      · exact Follows.bind_same fun leaf _ => Follows.some (push_on h)

/-! ### Inside one more group -/

def within (top : OpenGroup) (s : ReaderState) : ReaderState :=
  { s with outer := s.outer ++ [top] }

/-- A step inside one more group leaves that group alone. -/
def StepWithin (top : OpenGroup) (a b : ReaderState × List Char) : Prop :=
  b = (a.1.within top, a.2)

theorem repeated_within {top : OpenGroup} {lo : Nat} {hi : Option Nat} :
    Follows (StepWithin top)
      ((s.current.repeatLast? lo hi).map fun g => ({ s with current := g }, dropPreference cs))
      (((s.within top).current.repeatLast? lo hi).map fun g =>
        ({ s.within top with current := g }, dropPreference cs)) :=
  Follows.map (R := Eq) (Follows.same fun _ => rfl) fun g g' heq => by
    rw [StepWithin, heq]
    rfl

/-- **One step** inside one more group is the step without it. -/
theorem step?_within (top : OpenGroup) :
    Follows (StepWithin top) (s.step? cs) ((s.within top).step? cs) := by
  cases cs with
  | nil => exact Follows.none
  | cons c cs =>
      simp only [step?]
      split
      · refine Follows.bind_same ?_
        rintro ⟨start, rest⟩ -
        cases start with
        | setFlags f => exact Follows.some rfl
        | group f name => exact Follows.ite (fun _ => Follows.none) fun _ => Follows.some rfl
      · cases houter : s.outer with
        | nil => exact Follows.none
        | cons parent outer =>
            have hlong : (s.within top).outer = parent :: (outer ++ [top]) := by
              rw [within, houter]
              rfl
            rw [hlong]
            exact Follows.some rfl
      · exact Follows.some rfl
      · exact Follows.bind_same fun _ _ => Follows.some rfl
      · exact repeated_within
      · exact repeated_within
      · exact repeated_within
      · exact Follows.bind_same fun _ _ => repeated_within
      · refine Follows.bind_same ?_
        rintro ⟨e, rest⟩ -
        cases e with
        | literal d isByte => exact Follows.bind_same fun _ _ => Follows.some rfl
        | set set => exact Follows.some rfl
        | anchor a => exact Follows.some rfl
      · exact Follows.map (R := Eq) (Follows.same fun _ => rfl) fun _ _ heq => heq ▸ rfl
      · exact Follows.some rfl
      · exact Follows.some rfl
      · exact Follows.bind_same fun _ _ => Follows.some rfl

end ReaderState

/-! ## Reading to the end -/

def Node.anchored (node : Node α) : Node α :=
  .seq (.anchor .textStart) (.seq node (.anchor .textEnd))

def anchoredStart : OpenGroup :=
  { outerFlags := {}, items := [{ node := .anchor .textStart, depth := 0 }] }

section

variable {hash : Prop} {n : Nat} {s : ReaderState} {cs more rest : List Char} {c : Char}
  {alone : Node CodeSet × Nat}

theorem readLoop_of_end (h : s.flags.skip cs = []) :
    readLoop (n + 1) s cs = if s.outer.isEmpty then some s.current.close else none := by
  rw [readLoop, h]

theorem readLoop_of_step (h : s.flags.skip cs = c :: rest) :
    readLoop (n + 1) s cs = (s.step? (c :: rest)).bind fun (s', left) => readLoop n s' left := by
  rw [readLoop, h]
  rfl

theorem readLoop_closing (houter : s.outer = []) (hflags : s.current.outerFlags = {}) :
    ((s.within anchoredStart).step? [')', '$']).bind
        (fun (s', left) => readLoop (n + 2) s' left) =
      some (s.current.close.1.anchored, s.current.close.2 + 2) := by
  obtain ⟨flags, current, outer, names⟩ := s
  obtain rfl : outer = [] := houter
  obtain ⟨outerFlags, branches, items⟩ := current
  obtain rfl : outerFlags = {} := hflags
  refine congrArg some (Prod.ext rfl ?_)
  show max (max (max 0 0) (OpenGroup.close _).2.succ) 0 + 1 = _
  rw [Nat.max_zero, Nat.max_zero, Nat.zero_max]
  rfl

/-- **Reading on.** What is read of an expression alone is read of it in the group between the
anchors, and the expression is no expression with the parenthesis and the dollar sign only; but
where a comment swallows both, these read as the expression does, and the group stays open. -/
theorem readLoop_remains (h : Remains hash cs more) (hflags : s.finalFlags = {})
    (halone : readLoop n s cs = some alone) :
    (readLoop (n + 4) (s.within anchoredStart) more = some (alone.1.anchored, alone.2 + 2) ∧
      readLoop (n + 2) s more = none) ∨
    (hash ∧ readLoop (n + 4) (s.within anchoredStart) more = none ∧
      readLoop (n + 2) s more = some alone) := by
  -- all readings take the same steps, and the flags to return to at the end stay as they were
  induction n generalizing s cs more with
  | zero => exact nomatch halone
  | succ n ih =>
      have hskip := h.skip s.flags
      generalize hcs : s.flags.skip cs = cs' at hskip
      generalize hmore : s.flags.skip more = more' at hskip
      have hwithin : (s.within anchoredStart).flags.skip more = more' := hmore
      have hend : cs' = [] → s.outer = [] ∧ s.current.close = alone := by
        rintro rfl
        rw [readLoop_of_end hcs] at halone
        split at halone
        · next hempty => exact ⟨List.isEmpty_iff.mp hempty, Option.some.inj halone⟩
        · exact nomatch halone
      cases hskip with
      | closed =>
          obtain ⟨houter, rfl⟩ := hend rfl
          rw [ReaderState.finalFlags, houter] at hflags
          have htop : s.step? [')', '$'] = none := by
            simp only [ReaderState.step?, houter]
          refine .inl ⟨?_, ?_⟩
          · rw [readLoop_of_step hwithin]
            exact readLoop_closing (n := n + 2) houter hflags
          · rw [readLoop_of_step hmore, htop]
            rfl
      | swallowed hhash =>
          obtain ⟨houter, rfl⟩ := hend rfl
          refine .inr ⟨hhash, ?_, ?_⟩
          · rw [readLoop_of_end hwithin, ReaderState.within, houter]
            rfl
          · rw [readLoop_of_end hmore, houter]
            rfl
      | cons c hrest hhash =>
          rw [readLoop_of_step hcs] at halone
          obtain ⟨⟨s', rest⟩, hstep, halone⟩ := Option.bind_eq_some_iff.mp halone
          obtain ⟨⟨_, left⟩, hlong, rfl, hleft, hfinal⟩ :=
            ReaderState.step?_on (hrest.cons c hhash) _ hstep
          obtain ⟨_, hlong', rfl⟩ := ReaderState.step?_within anchoredStart _ hlong
          rw [readLoop_of_step hwithin, readLoop_of_step hmore, hlong, hlong']
          exact ih hleft (hfinal.trans hflags) halone

end

def ReaderState.start : ReaderState := { flags := {}, current := { outerFlags := {} } }

/-- The tree of an expression and how deep it nests, whatever the limits. -/
def tree? (text : List Char) : Option (Node CodeSet × Nat) :=
  readLoop (text.length + 1) .start text

theorem read?_eq_some_iff {text : List Char} {node : Node CodeSet} :
    read? text = some node ↔
      ∃ depth, tree? text = some (node, depth) ∧ depth ≤ maxDepth ∧
        node.space leafSpace ≤ maxSpace := by
  unfold read?
  rw [Option.bind_eq_bind, Option.bind_eq_some_iff]
  constructor
  · rintro ⟨⟨node', depth⟩, hread, hlimit⟩
    dsimp only at hlimit
    split at hlimit
    · next hroom =>
      obtain rfl := Option.some.inj hlimit
      rw [Bool.and_eq_true, decide_eq_true_eq, decide_eq_true_eq] at hroom
      exact ⟨depth, hread, hroom⟩
    · exact nomatch hlimit
  · rintro ⟨depth, hread, hdepth, hspace⟩
    refine ⟨(node, depth), hread, if_pos ?_⟩
    rw [Bool.and_eq_true, decide_eq_true_eq, decide_eq_true_eq]
    exact ⟨hdepth, hspace⟩

/-- Whether an expression ends within a comment: a hash stands on its last line, and a parenthesis
and a dollar sign behind it make no difference to how it is read. -/
def EndsInComment (text : List Char) : Prop :=
  HasHashAtEnd text ∧ tree? (text ++ [')', '$']) = tree? text

/-- The anchor and the start of the group lead to the state of the expression inside a group. -/
theorem readLoop_anchoredStart (n : Nat) (cs : List Char) :
    readLoop (n + 2) .start ('^' :: '(' :: '?' :: ':' :: cs) =
      readLoop n (ReaderState.start.within anchoredStart) cs := rfl

/-- **The tree of the anchored form** is that of the expression between anchors, unless the
expression ends within a comment; then there is none. -/
theorem tree?_anchored {source : String} {node : Node CodeSet} {depth : Nat}
    (h : tree? source.toList = some (node, depth)) :
    ¬ EndsInComment source.toList ∧
        tree? (anchoredSource source).toList = some (node.anchored, depth + 2) ∨
      EndsInComment source.toList ∧ tree? (anchoredSource source).toList = none := by
  have htext : (anchoredSource source).toList =
      '^' :: '(' :: '?' :: ':' :: (source.toList ++ [')', '$']) := by
    simp [anchoredSource]
  have hfuel : (anchoredSource source).toList.length + 1 =
      source.toList.length + 1 + 4 + 2 := by
    rw [htext]
    simp only [List.length_cons, List.length_append, List.length_nil]
  have hbehind : tree? (source.toList ++ [')', '$']) =
      readLoop (source.toList.length + 1 + 2) .start (source.toList ++ [')', '$']) := by
    rw [tree?, List.length_append]
    rfl
  rw [tree?, hfuel, htext, readLoop_anchoredStart]
  rcases readLoop_remains (Remains.append_closing _) rfl h with
    ⟨hanchored, hnone⟩ | ⟨hhash, hopen, hsame⟩
  · refine .inl ⟨fun hcomment => ?_, hanchored⟩
    have hread := hcomment.2
    rw [hbehind, hnone, h] at hread
    exact nomatch hread
  · exact .inr ⟨⟨hhash, by rw [hbehind, hsame, h]⟩, hopen⟩

/-- **The anchored form.** If an expression is readable alone and between anchors, the second tree
is the first between anchors. -/
theorem node_anchored {source : String} {alone whole : Pattern}
    (halone : ofString? source = some alone)
    (hwhole : ofString? (anchoredSource source) = some whole) :
    whole.node = alone.node.anchored := by
  obtain ⟨node, hread, rfl⟩ := Option.map_eq_some_iff.mp halone
  obtain ⟨node', hread', rfl⟩ := Option.map_eq_some_iff.mp hwhole
  obtain ⟨depth, htree, -⟩ := read?_eq_some_iff.mp hread
  obtain ⟨depth', htree', -⟩ := read?_eq_some_iff.mp hread'
  rcases tree?_anchored htree with ⟨-, hanchored⟩ | ⟨-, hnone⟩
  · exact congrArg Prod.fst (Option.some.inj (htree'.symm.trans hanchored))
  · exact nomatch htree'.symm.trans hnone

/-! ## Matching the anchored form -/

theorem getElem?_neighbours (before : Option Char) (cs : List Char) (i : Nat) :
    (neighbours before cs)[i]? =
      if i ≤ cs.length then some (if i = 0 then before else cs[i - 1]?, cs[i]?) else none := by
  induction cs generalizing before i with
  | nil =>
      cases i with
      | zero => rfl
      | succ i => simp [neighbours]
  | cons c cs ih =>
      cases i with
      | zero => rfl
      | succ i =>
          rw [neighbours, List.getElem?_cons_succ, ih]
          simp only [List.length_cons, Nat.add_le_add_iff_right, Nat.succ_ne_zero, if_false,
            Nat.add_sub_cancel, List.getElem?_cons_succ]
          cases i with
          | zero => rfl
          | succ i => rfl

theorem testBit_placesAt (cs : List Char) (a : Anchor) (i : Nat) :
    (placesAt cs a).testBit i = true ↔
      i ≤ cs.length ∧ a.holds (if i = 0 then none else cs[i - 1]?) cs[i]? = true := by
  rw [placesAt, testBit_bitsFrom, Nat.sub_zero, List.getElem?_map, getElem?_neighbours]
  split
  · next h => simp [h]
  · next h => simp [h]

theorem testBit_textStart (cs : List Char) (i : Nat) :
    (placesAt cs .textStart).testBit i = true ↔ i = 0 := by
  rw [testBit_placesAt, Anchor.holds]
  constructor
  · rintro ⟨hle, hnone⟩
    by_contra hi
    rw [if_neg hi, List.getElem?_eq_getElem (by omega)] at hnone
    exact nomatch hnone
  · rintro rfl
    exact ⟨Nat.zero_le _, rfl⟩

theorem testBit_textEnd (cs : List Char) (i : Nat) :
    (placesAt cs .textEnd).testBit i = true ↔ i = cs.length := by
  rw [testBit_placesAt, Anchor.holds, Option.isNone_iff_eq_none, List.getElem?_eq_none_iff]
  exact ⟨fun h => Nat.le_antisymm h.1 h.2, fun h => ⟨Nat.le_of_eq h, Nat.le_of_eq h.symm⟩⟩

theorem matchesWithin_iff_reach {α β : Type} {fits : α → β → Bool} {anchors : Anchor → Nat}
    {node : Node α} {text : List β} :
    matchesWithin fits anchors node text = true ↔
      ∃ i ≤ text.length, ∃ j, Reach fits anchors text node i j := by
  have hstart : ∀ i, (1 <<< (text.length + 1) - 1).testBit i = true ↔ i ≤ text.length := by
    intro i
    rw [Nat.one_shiftLeft, Nat.testBit_two_pow_sub_one, decide_eq_true_eq, Nat.lt_succ_iff]
  have hends : ∀ j, (endsIn fits anchors node text (1 <<< (text.length + 1) - 1)).testBit j = true ↔
      ∃ i, (1 <<< (text.length + 1) - 1).testBit i = true ∧ Reach fits anchors text node i j :=
    testBit_endsIn node fun i => (hstart i).mp
  rw [matchesWithin, bne_iff_ne]
  constructor
  · intro hne
    obtain ⟨j, hj⟩ := Nat.exists_testBit_of_ne_zero hne
    obtain ⟨i, hi, hreach⟩ := (hends j).mp hj
    exact ⟨i, (hstart i).mp hi, j, hreach⟩
  · rintro ⟨i, hi, j, hreach⟩ hzero
    have hj := (hends j).mpr ⟨i, (hstart i).mpr hi, hreach⟩
    rw [hzero, Nat.zero_testBit] at hj
    exact nomatch hj

/-- Between the anchors, an expression matches from the first place to the last. -/
theorem reach_anchored {α : Type} {fits : α → Char → Bool} {cs : List Char} {node : Node α}
    {i j : Nat} :
    Reach fits (placesAt cs) cs node.anchored i j ↔
      i = 0 ∧ j = cs.length ∧ Reach fits (placesAt cs) cs node 0 cs.length := by
  simp only [Node.anchored, Reach, testBit_textStart, testBit_textEnd]
  constructor
  · rintro ⟨_, ⟨rfl, rfl⟩, _, hnode, rfl, rfl⟩
    exact ⟨rfl, rfl, hnode⟩
  · rintro ⟨rfl, rfl, hnode⟩
    exact ⟨0, ⟨rfl, rfl⟩, cs.length, hnode, rfl, rfl⟩

/-- A pattern that leads where an anchored expression does, matches the texts that the expression
leads through from end to end. -/
theorem isMatch_iff_reach {p : Pattern} {node : Node CodeSet} {text : String}
    (hnode : ∀ i j, Reach CodeSet.contains (placesAt text.toList) text.toList p.node i j ↔
      Reach CodeSet.contains (placesAt text.toList) text.toList node.anchored i j) :
    p.isMatch text = true ↔
      Reach CodeSet.contains (placesAt text.toList) text.toList node 0 text.toList.length := by
  rw [isMatch, matchesWithin_iff_reach]
  simp only [hnode, reach_anchored]
  constructor
  · rintro ⟨_, _, _, _, _, hreach⟩
    exact hreach
  · intro hreach
    exact ⟨0, Nat.zero_le _, _, rfl, rfl, hreach⟩

/-- Without other anchors, it matches the texts that the expression accepts. -/
theorem isMatch_iff_accepts {p : Pattern} {node : Node CodeSet} (hfree : node.isAnchorFree = true)
    {text : String} (hnode : ∀ i j,
      Reach CodeSet.contains (placesAt text.toList) text.toList p.node i j ↔
        Reach CodeSet.contains (placesAt text.toList) text.toList node.anchored i j) :
    p.isMatch text = true ↔ Accepts CodeSet.contains node text.toList :=
  (isMatch_iff_reach hnode).trans (reach_iff_accepts hfree)

/-- Whether a match of the pattern begins at the first character of the text and ends after its
last one. -/
def MatchesWhole (p : Pattern) (text : String) : Prop :=
  Reach CodeSet.contains (placesAt text.toList) text.toList p.node 0 text.toList.length

/-- **Matches from end to end.** Somewhere in a text, an anchored form matches exactly if the
expression alone matches the text from end to end. -/
theorem isMatch_anchored {source : String} {alone whole : Pattern}
    (halone : ofString? source = some alone)
    (hwhole : ofString? (anchoredSource source) = some whole) (text : String) :
    whole.isMatch text = true ↔ alone.MatchesWhole text := by
  refine isMatch_iff_reach fun i j => ?_
  rw [node_anchored halone hwhole]

end SourceEdit.Pattern
