import SourceEdit.Proofs.Manifest.Valid
import SourceEdit.Proofs.Pattern.WholeValue
import SourceEdit.Proofs.Version.Brackets

/-!
# Versions and ranges as regular expressions

The grammar of versions and ranges can be written as two regular expressions, one for a version and
one for a list of ranges. Read and matched as patterns are, they accept the same texts as the
grammar, and so the check of a version is a match of one of the two.
-/

namespace SourceEdit.Version

open Pattern (Accepts Node)
open Text (isBlank AreBlanks Padded)
open Unicode (CodeSet)

/-! ## The expressions -/

def versionText : String := "^[^\\s,\\[\\]()]+$"

def boundText : String := "[^\\s,\\[\\]()]*"

def rangeText : String :=
  "(?:\\[\\s*" ++ boundText ++ "\\s*\\]|[\\[(]\\s*" ++ boundText ++ "\\s*,\\s*" ++ boundText ++
    "\\s*[\\])])"

def rangesText : String := "^" ++ rangeText ++ "(?:\\s*,\\s*" ++ rangeText ++ ")*$"

def blankSet : CodeSet :=
  ⟨[(9, 13), (32, 32), (133, 133), (160, 160), (5760, 5760), (8192, 8202), (8232, 8233),
    (8239, 8239), (8287, 8287), (12288, 12288)]⟩

def wordSet : CodeSet :=
  ⟨[(0, 8), (14, 31), (33, 39), (42, 43), (45, 90), (92, 92), (94, 132), (134, 159), (161, 5759),
    (5761, 8191), (8203, 8231), (8234, 8238), (8240, 8286), (8288, 12287), (12289, 1114111)]⟩

/-- The set of two characters, the smaller one first. -/
def pairSet (a b : Char) : CodeSet := ⟨[(a.toNat, a.toNat), (b.toNat, b.toNat)]⟩

def blanksNode : Node CodeSet := .times 0 none (.leaf blankSet)

def wordNode : Node CodeSet := .times 0 none (.leaf wordSet)

def charNode (c : Char) : Node CodeSet := .leaf (.range c.toNat c.toNat)

/-- A bound and the blanks around it, before something else. -/
def boundNode (next : Node CodeSet) : Node CodeSet :=
  .seq blanksNode (.seq wordNode (.seq blanksNode next))

def rangeNode : Node CodeSet :=
  .alt (.seq (charNode '[') (boundNode (charNode ']')))
    (.seq (.leaf (pairSet '(' '['))
      (boundNode (.seq (charNode ',') (boundNode (.leaf (pairSet ')' ']'))))))

def moreNode : Node CodeSet :=
  .times 0 none (.seq blanksNode (.seq (charNode ',') (.seq blanksNode rangeNode)))

theorem read_versionText : Pattern.read? versionText.toList =
    some (Node.times 1 none (.leaf wordSet)).anchored := by
  decide +kernel

theorem read_rangesText : Pattern.read? rangesText.toList =
    some (.seq (.anchor .textStart) (.seq rangeNode (.seq moreNode (.anchor .textEnd)))) := by
  decide +kernel

/-! ## What their parts accept -/

theorem contains_blankSet {c : Char} : blankSet.contains c = true ↔ isBlank c = true := by
  simp only [blankSet, CodeSet.contains, CodeSet.hasCode, isBlank, List.any_cons, List.any_nil,
    Bool.or_false, Bool.or_eq_true, Bool.and_eq_true, decide_eq_true_eq, beq_iff_eq]
  omega

theorem contains_wordSet {c : Char} : wordSet.contains c = true ↔ IsWordChar c := by
  have hlast : c.toNat ≤ 0x10FFFF := Unicode.toNat_le_lastCode c
  have hblank : isBlank c = false ↔ ¬ blankSet.contains c = true := by
    rw [contains_blankSet, Bool.not_eq_true]
  have hmark : c ∉ marks ↔ c.toNat ≠ 44 ∧ c.toNat ≠ 91 ∧ c.toNat ≠ 40 ∧ c.toNat ≠ 93 ∧
      c.toNat ≠ 41 := by
    simp only [marks, openings, closings, List.cons_append, List.nil_append, List.mem_cons,
      List.not_mem_nil, or_false, not_or, ← Char.toNat_inj]
    rfl
  have hchar : IsWordChar c ↔ isBlank c = false ∧ c ∉ marks :=
    ⟨fun h => ⟨h.notBlank, h.notMark⟩, fun h => ⟨h.1, h.2⟩⟩
  rw [hchar, hblank, hmark]
  simp only [wordSet, blankSet, CodeSet.contains, CodeSet.hasCode, List.any_cons, List.any_nil,
    Bool.or_false, Bool.or_eq_true, Bool.and_eq_true, decide_eq_true_eq]
  omega

theorem contains_pairSet {a b c : Char} : (pairSet a b).contains c = true ↔ c ∈ [b, a] := by
  simp only [pairSet, CodeSet.contains, CodeSet.hasCode, List.any_cons, List.any_nil,
    Bool.or_false, Bool.or_eq_true, Bool.and_eq_true, decide_eq_true_eq, List.mem_cons,
    List.not_mem_nil, or_false, ← Char.toNat_inj]
  omega

/-- A leaf for a single character accepts just that. -/
theorem accepts_charNode {d : Char} {w : List Char} :
    Accepts CodeSet.contains (charNode d) w ↔ w = [d] := by
  have hfit : ∀ c : Char, (CodeSet.range d.toNat d.toNat).contains c = true ↔ c = d := by
    intro c
    rw [← Char.toNat_inj]
    simp only [CodeSet.range, CodeSet.contains, CodeSet.hasCode, List.any_cons, List.any_nil,
      Bool.or_false, Bool.and_eq_true, decide_eq_true_eq]
    omega
  constructor
  · rintro ⟨c, rfl, hc⟩
    rw [(hfit c).mp hc]
  · rintro rfl
    exact ⟨d, rfl, (hfit d).mpr rfl⟩

theorem accepts_blanksNode {w : List Char} :
    Accepts CodeSet.contains blanksNode w ↔ AreBlanks w := by
  rw [blanksNode, Pattern.accepts_times_leaf, and_iff_right (Nat.zero_le _)]
  simp only [contains_blankSet]
  rfl

theorem accepts_wordNode {w : List Char} : Accepts CodeSet.contains wordNode w ↔ IsWord w := by
  rw [wordNode, Pattern.accepts_times_leaf, and_iff_right (Nat.zero_le _)]
  simp only [contains_wordSet]
  rfl

theorem accepts_boundNode {next : Node CodeSet} {w : List Char} :
    Accepts CodeSet.contains (boundNode next) w ↔
      ∃ b v, w = b ++ v ∧ Padded IsWord b ∧ Accepts CodeSet.contains next v := by
  constructor
  · rintro ⟨s, _, rfl, hs, b, _, rfl, hb, t, v, rfl, ht, hv⟩
    exact ⟨s ++ b ++ t, v, by simp, ⟨s, b, t, accepts_blanksNode.mp hs, accepts_wordNode.mp hb,
      accepts_blanksNode.mp ht, rfl⟩, hv⟩
  · rintro ⟨_, v, rfl, ⟨s, b, t, hs, hb, ht, rfl⟩, hv⟩
    exact ⟨s, b ++ (t ++ v), by simp, accepts_blanksNode.mpr hs, b, t ++ v, rfl,
      accepts_wordNode.mpr hb, t, v, rfl, accepts_blanksNode.mpr ht, hv⟩

/-- **The expression of a range** accepts ranges. -/
theorem accepts_rangeNode {w : List Char} : Accepts CodeSet.contains rangeNode w ↔ IsRange w := by
  constructor
  · rintro (⟨_, _, rfl, hopen, h⟩ | ⟨_, _, rfl, ⟨o, rfl, ho⟩, h⟩)
    · obtain rfl := accepts_charNode.mp hopen
      obtain ⟨b, _, rfl, hb, hclose⟩ := accepts_boundNode.mp h
      obtain rfl := accepts_charNode.mp hclose
      exact .exact hb
    · obtain ⟨b, _, rfl, hb, _, _, rfl, hcomma, hmore⟩ := accepts_boundNode.mp h
      obtain rfl := accepts_charNode.mp hcomma
      obtain ⟨b', _, rfl, hb', c, rfl, hc⟩ := accepts_boundNode.mp hmore
      exact .between (contains_pairSet.mp ho) hb hb' (contains_pairSet.mp hc)
  · intro h
    cases h with
    | @exact b hb =>
        refine Or.inl ⟨['['], b ++ [']'], rfl, accepts_charNode.mpr rfl, ?_⟩
        exact accepts_boundNode.mpr ⟨b, [']'], rfl, hb, accepts_charNode.mpr rfl⟩
    | @between o c b b' ho hb hb' hc =>
        refine Or.inr ⟨[o], b ++ ',' :: (b' ++ [c]), rfl, ⟨o, rfl, contains_pairSet.mpr ho⟩, ?_⟩
        refine accepts_boundNode.mpr ⟨b, ',' :: (b' ++ [c]), rfl, hb, [','], b' ++ [c], rfl,
          accepts_charNode.mpr rfl, ?_⟩
        exact accepts_boundNode.mpr ⟨b', [c], rfl, hb', c, rfl, contains_pairSet.mpr hc⟩

/-- **The expression of a list of ranges** accepts lists of ranges. -/
theorem accepts_rangesNode {w : List Char} :
    Accepts CodeSet.contains (.seq rangeNode moreNode) w ↔ AreRanges w := by
  constructor
  · rintro ⟨r, _, rfl, hr, parts, -, -, rfl, hparts⟩
    induction parts generalizing r with
    | nil =>
        rw [List.flatten_nil, List.append_nil]
        exact .last (accepts_rangeNode.mp hr)
    | cons part parts ih =>
        obtain ⟨s, _, rfl, hs, _, _, rfl, hcomma, t, r', rfl, ht, hr'⟩ := hparts part (by simp)
        obtain rfl := accepts_charNode.mp hcomma
        have hrest := ih r' hr' fun u hu => hparts u (List.mem_cons_of_mem _ hu)
        have hcons := AreRanges.cons (accepts_rangeNode.mp hr) (accepts_blanksNode.mp hs)
          (accepts_blanksNode.mp ht) hrest
        simpa using hcons
  · intro h
    induction h with
    | @last r hr =>
        exact ⟨r, [], by simp, accepts_rangeNode.mpr hr, [], Nat.zero_le _, by simp, rfl, by simp⟩
    | @cons r s t rest hr hs ht hrest ih =>
        obtain ⟨r', _, rfl, hr', parts, -, -, rfl, hparts⟩ := ih
        refine ⟨r, _, rfl, accepts_rangeNode.mpr hr, (s ++ ',' :: (t ++ r')) :: parts,
          Nat.zero_le _, by simp, by simp, ?_⟩
        intro u hu
        rcases List.mem_cons.mp hu with rfl | hu
        · exact ⟨s, _, rfl, accepts_blanksNode.mpr hs, [','], _, rfl, accepts_charNode.mpr rfl, t,
            r', rfl, accepts_blanksNode.mpr ht, hr'⟩
        · exact hparts u hu

/-! ## The check as a match -/

/-- The expression of a version matches versions, and that of ranges matches lists of ranges. -/
theorem exists_patterns : ∃ version ranges, Pattern.ofString? versionText = some version ∧
    Pattern.ofString? rangesText = some ranges ∧ ∀ text : String,
      (version.isMatch text = true ↔ IsPlain text.toList) ∧
      (ranges.isMatch text = true ↔ AreRanges text.toList) := by
  refine ⟨_, _, congrArg (Option.map _) read_versionText, congrArg (Option.map _) read_rangesText,
    fun text => ⟨?_, ?_⟩⟩
  · rw [Pattern.isMatch_iff_accepts rfl fun _ _ => Iff.rfl, Pattern.accepts_times_leaf]
    simp only [contains_wordSet, Nat.one_le_iff_ne_zero, ne_eq, List.length_eq_zero_iff]
    exact ⟨fun h => ⟨h.1, h.2⟩, fun h => ⟨h.notEmpty, h.word⟩⟩
  · have hfree : (Node.seq rangeNode moreNode).isAnchorFree = true := rfl
    rw [Pattern.isMatch_iff_accepts hfree, accepts_rangesNode]
    intro i j
    constructor
    · rintro ⟨k, hstart, l, hrange, m, hmore, hend⟩
      exact ⟨k, hstart, m, ⟨l, hrange, hmore⟩, hend⟩
    · rintro ⟨k, hstart, m, ⟨l, hrange, hmore⟩, hend⟩
      exact ⟨k, hstart, l, hrange, m, hmore, hend⟩

/-- **Version constraints are exactly the grammar.** A text is accepted if and only if it is, up to
blanks at its ends, a version or a list of ranges, and never both; any other text is refused with
the key and the text as it came. In what is accepted, every bracket is closed before another one
opens, two round brackets always have a comma between them, and in a list of ranges no character of
a version stands outside the brackets. The two regular expressions accept the same texts. -/
theorem checkVersion_accepts_exactly_grammar (key v : String) :
    (Manifest.checkVersion key (some v) = .ok () ↔
      IsPlain (Text.trim v.toList) ∨ AreRanges (Text.trim v.toList)) ∧
    ¬ (IsPlain (Text.trim v.toList) ∧ AreRanges (Text.trim v.toList)) ∧
    (¬ (IsPlain (Text.trim v.toList) ∨ AreRanges (Text.trim v.toList)) →
      Manifest.checkVersion key (some v) = .error (.invalidVersion key v)) ∧
    (Manifest.checkVersion key (some v) = .ok () → IsBracketed (Text.trim v.toList)) ∧
    (AreRanges (Text.trim v.toList) → ∀ before c after,
      Text.trim v.toList = before ++ c :: after → IsWordChar c → depth before = 1) ∧
    ∃ version ranges, Pattern.ofString? versionText = some version ∧
      Pattern.ofString? rangesText = some ranges ∧
      (Manifest.checkVersion key (some v) = .ok () ↔
        version.isMatch (String.ofList (Text.trim v.toList)) = true ∨
          ranges.isMatch (String.ofList (Text.trim v.toList)) = true) := by
  have hcheck : Manifest.checkVersion key (some v) = .ok () ↔
      IsPlain (Text.trim v.toList) ∨ AreRanges (Text.trim v.toList) :=
    Manifest.checkVersion_some_eq_ok_iff
  refine ⟨hcheck, fun h => h.1.not_areRanges h.2, ?_, ?_, ?_, ?_⟩
  · intro hnot
    exact Manifest.checkVersion_some_eq_error (fun h => hnot (hcheck.mp h))
  · intro h
    rcases hcheck.mp h with hplain | hranges
    · exact hplain.isBracketed
    · exact hranges.isBracketed
  · intro hranges before c after htext hc
    exact hranges.depth_of_wordChar htext hc
  · obtain ⟨version, ranges, hversion, hranges, hmatch⟩ := exists_patterns
    refine ⟨version, ranges, hversion, hranges, ?_⟩
    obtain ⟨hplain, hlist⟩ := hmatch (String.ofList (Text.trim v.toList))
    rw [hplain, hlist, String.toList_ofList]
    exact hcheck

end SourceEdit.Version
